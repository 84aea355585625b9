import TTXla.TTTorch.CustomOps.PagedCache.Refinement

-- The CPU definitions of attention in a decode step, over contiguous and over paged caches.
namespace TTXla.TTTorch.PagedCache

open Tensor

variable {R : Type}

-- The start of a slice in a dimension.
def slice_start (n : Nat) (i : Int) : Nat :=
  if i < 0 then (i + n).toNat else min i.toNat n

def repeat_interleave (t : Tensor R) (dim n : Nat) : Tensor R where
  shape := t.shape.modify dim (· * n)
  get := fun is => t.get (is.modify dim (· / n))

def reshape (t : Tensor R) (shape : List Nat) : Option (Tensor R) :=
  if t.shape.prod = shape.prod then some (t.view shape) else none

-- `cache[block_indices].transpose(0, 1).reshape(...)`.
def user_blocks (cache : Tensor R) (block_indices : List Int)
    (num_heads seq_len head_size : Nat) : Option (Tensor R) :=
  match cache.shape with
  | num_blocks :: dims => do
      let blocks ← block_indices.mapM (place num_blocks)
      let user_cache : Tensor R :=
        ⟨blocks.length :: dims, fun is => cache.get (blocks.getD (is.headD 0) 0 :: is.tail)⟩
      reshape (user_cache.permute [1, 0, 2, 3]) [num_heads, seq_len, head_size]
  | [] => none

-- `softmax` is that of a row, and `inv_sqrt` the scale of a head size.
variable [AddCommMonoid R] [Mul R] (softmax : List R → List R) (neg_inf : R)
  (inv_sqrt : Nat → R)

-- A mask of the positions after those of the users, over the heads.
def causal_mask (shape : List Nat) (cur_pos_tensor : Tensor Int) : Tensor R where
  shape := shape
  get := fun is =>
    if slice_start (last shape) (cur_pos_tensor.get [is.headD 0] + 1) ≤ last is then neg_inf
    else 0

-- `torch.softmax(t, dim=-1)`.
def softmax_last (t : Tensor R) : Tensor R where
  shape := t.shape
  get := fun is => (softmax ((List.range (last t.shape)).map fun k => t.get (setLast is k))).getD
    (last is) 0

-- `softmax(query @ key.transpose(-2, -1) * scale + attn_mask) @ value`.
def attention (query key value attn_mask : Tensor R) (scale : R) : Option (Tensor R) :=
  let attn_weight := (query.matmul (key.permute [0, 1, 3, 2])).map (· * scale)
  if expands attn_mask.shape attn_weight.shape then
    some ((softmax_last softmax (attn_weight + attn_mask)).matmul value)
  else none

-- `torch.nn.functional.scaled_dot_product_attention` with `enable_gqa`, of queries whose heads
-- are a multiple of those of the keys.
def torch_scaled_dot_product_attention (query key value attn_mask : Tensor R)
    (scale : Option R) : Option (Tensor R) :=
  match query.shape, key.shape with
  | [_, query_heads, _, head_size], [_, key_heads, _, _] =>
      attention softmax query (repeat_interleave key 1 (query_heads / key_heads))
        (repeat_interleave value 1 (query_heads / key_heads)) attn_mask
        (scale.getD (inv_sqrt head_size))
  | _, _ => none

def scaled_dot_product_attention_decode (query key value : Tensor R)
    (cur_pos_tensor : Tensor Int) (attn_mask : Option (Tensor R)) (is_causal : Bool)
    (scale : Option R) : Option (Tensor R) :=
  match query.shape, key.shape, value.shape, cur_pos_tensor.shape with
  | [one, batch_size, num_heads, head_size], [key_batch, num_kv_heads, max_seq_len, key_head_size],
      [_, _, _, _], [num_positions] => do
      guard (key.shape = value.shape)
      guard (key_head_size = head_size)
      guard (0 < num_kv_heads ∧ num_heads % num_kv_heads = 0)
      guard (one = 1)
      guard (batch_size = key_batch)
      guard (is_causal = false ∨ attn_mask.isNone)
      let query ← reshape query [batch_size, num_heads, 1, head_size]
      let mask_shape := [batch_size, num_heads, 1, max_seq_len]
      let attn_mask ←
        match attn_mask with
        | some attn_mask => reshape attn_mask mask_shape
        | none => do
            guard (batch_size ≤ num_positions)
            pure (causal_mask neg_inf mask_shape cur_pos_tensor)
      let out ← torch_scaled_dot_product_attention softmax inv_sqrt query key value attn_mask scale
      reshape out [1, batch_size, num_heads, head_size]
  | _, _, _, _ => none

-- The caches of the users, read through the page table.
def user_caches (cache : Tensor R) (page_table : Tensor Int)
    (num_users num_cols num_heads seq_len head_size : Nat) : Option (Tensor R) := do
  let caches ← (List.range num_users).mapM fun user =>
    user_blocks cache ((List.range num_cols).map fun col => page_table.get [user, col]) num_heads
      seq_len head_size
  return ⟨[num_users, num_heads, seq_len, head_size],
    fun is => (caches[is.headD 0]?).elim 0 fun cache => cache.get is.tail⟩

def paged_scaled_dot_product_attention_decode (query key value : Tensor R)
    (page_table : Tensor Int) (is_causal : Bool) (attn_mask : Option (Tensor R))
    (cur_pos_tensor : Option (Tensor Int)) (scale : Option R) : Option (Tensor R) := do
  guard (is_causal = false ∨ attn_mask.isNone)
  -- its shape is read whether or not it masks
  let cur_pos_tensor ← cur_pos_tensor
  match key.shape, cur_pos_tensor.shape, page_table.shape with
  | [_, num_heads, block_size, head_size], [num_users], [table_users, num_cols] => do
      guard (num_users ≤ table_users)
      let max_seq_len := num_cols * block_size
      let new_key ← user_caches key page_table num_users num_cols num_heads max_seq_len head_size
      let new_value ← user_caches value page_table num_users num_cols num_heads max_seq_len
        head_size
      let query ← reshape query [num_users, num_heads, 1, head_size]
      let attn_mask ←
        if is_causal then
          some (causal_mask neg_inf [num_users, 1, 1, max_seq_len] cur_pos_tensor)
        else attn_mask
      -- the repeated keys and values are not used, but their number is computed
      guard (0 < num_heads)
      let out ← attention softmax query new_key new_value attn_mask
        (scale.getD (inv_sqrt head_size))
      reshape out [1, num_users, num_heads, head_size]
  | _, _, _ => none

end TTXla.TTTorch.PagedCache

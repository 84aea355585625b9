import TTXla.Lib.Tensor.Assign
import TTXla.Lib.Options

-- The CPU definitions of the operations on KV caches, contiguous and in pages.
namespace TTXla.TTTorch.PagedCache

open Tensor

variable {R : Type}

def update_cache (cache fill_value : Tensor R) (cache_position : Tensor Int)
    (batch_offset : Option Int) : Option (Tensor R) :=
  match cache.shape, fill_value.shape with
  | [B, num_heads, max_seq_len, head_size], [_, _, fill_seq_len, _] => do
      guard (fill_seq_len = 1)
      guard (batch_offset ≠ none ∨ B = 1)
      guard (cache_position.shape = [1])
      guard (batch_offset.getD 0 = 0)
      let position ← place max_seq_len (cache_position.get [0])
      cache.assign fill_value [B, num_heads, 1, head_size] fun is =>
        if is.getD 2 0 = position then some (is.set 2 0) else none
  | _, _ => none

def fill_cache (cache fill_value : Tensor R) (batch_offset : Option Int) : Option (Tensor R) :=
  match cache.shape, fill_value.shape with
  | [B, num_heads, max_seq_len, head_size], [_, _, fill_seq_len, _] => do
      guard (fill_seq_len ≤ max_seq_len)
      guard (batch_offset ≠ none ∨ B = 1)
      guard (batch_offset.getD 0 = 0)
      cache.assign fill_value [B, num_heads, fill_seq_len, head_size] fun is =>
        if is.getD 2 0 < fill_seq_len then some is else none
  | _, _ => none

-- Division by the block size rounds down. The advanced indices come first in what they select.
def paged_update_cache (cache fill_value : Tensor R) (update_indices page_table : Tensor Int) :
    Option (Tensor R) :=
  match cache.shape, fill_value.shape, update_indices.shape, page_table.shape with
  | [num_blocks, num_heads, block_size, head_size], [B, users, fill_heads, fill_head_size],
      [num_users], [table_users, num_cols] => do
      guard (0 < B)
      let targets ← (List.range num_users).mapM fun user => do
        guard (0 < block_size)
        let update_index := update_indices.get [user]
        let row ← place table_users user
        let col ← place num_cols (update_index / block_size)
        let block ← place num_blocks (page_table.get [row, col])
        return (block, (update_index % block_size).toNat)
      let fill_values_view : Tensor R :=
        ⟨[users, min num_heads fill_heads, fill_head_size], fun is => fill_value.get (0 :: is)⟩
      cache.assign fill_values_view [num_users, num_heads, head_size] fun is =>
        (lastIdx targets (is.getD 0 0, is.getD 2 0)).map fun user =>
          [user, is.getD 1 0, is.getD 3 0]
  | _, _, _, _ => none

-- `cache[rows, :, :len, :] = value`.
def assign_blocks (cache value : Tensor R) (rows : List Int) (len : Nat) : Option (Tensor R) :=
  match cache.shape with
  | [num_blocks, num_heads, _, head_size] => do
      let blocks ← rows.mapM (place num_blocks)
      cache.assign value [blocks.length, num_heads, len, head_size] fun is =>
        if is.getD 2 0 < len then (lastIdx blocks (is.getD 0 0)).map (is.set 0) else none
  | _ => none

-- The blocks that are filled whole.
def fill_first_blocks (cache fill_value : Tensor R) (batch_block_indices : List Int)
    (num_heads fill_seq_len block_size fill_head_size : Nat) : Option (Tensor R) :=
  let num_blocks_to_fill := fill_seq_len / block_size
  let part_of_final_block_to_fill := fill_seq_len % block_size
  if 0 < num_blocks_to_fill then do
    let fill_value_first_blocks :=
      if 0 < part_of_final_block_to_fill then
        fill_value.narrow 2 0 (fill_seq_len - part_of_final_block_to_fill)
      else fill_value
    let shape := [1, num_heads, num_blocks_to_fill, block_size, fill_head_size]
    -- a reshape keeps the number of elements
    guard (fill_value_first_blocks.shape.prod = shape.prod)
    assign_blocks cache
      (((fill_value_first_blocks.view shape).permute [2, 1, 0, 3, 4]).view
        [num_blocks_to_fill, num_heads, block_size, fill_head_size])
      (batch_block_indices.take num_blocks_to_fill) block_size
  else return cache

def fill_final_block (cache fill_value : Tensor R) (batch_block_indices : List Int)
    (fill_seq_len block_size : Nat) : Option (Tensor R) :=
  let num_blocks_to_fill := fill_seq_len / block_size
  let part_of_final_block_to_fill := fill_seq_len % block_size
  if 0 < part_of_final_block_to_fill then
    assign_blocks cache
      (fill_value.narrow 2 (fill_seq_len - part_of_final_block_to_fill)
        part_of_final_block_to_fill)
      ((batch_block_indices.drop num_blocks_to_fill).take 1) part_of_final_block_to_fill
  else return cache

def paged_fill_cache (cache fill_value : Tensor R) (page_table : Tensor Int)
    (batch_idx : Option Int) : Option (Tensor R) :=
  match cache.shape, fill_value.shape, page_table.shape with
  | [_, _, block_size, _], [_, num_heads, fill_seq_len, fill_head_size],
      [table_users, num_cols] => do
      guard (0 < block_size)
      let user ← place table_users (batch_idx.getD 0)
      let batch_block_indices := (List.range num_cols).map fun col => page_table.get [user, col]
      let cache ← fill_first_blocks cache fill_value batch_block_indices num_heads fill_seq_len
        block_size fill_head_size
      fill_final_block cache fill_value batch_block_indices fill_seq_len block_size
  | _, _, _ => none

end TTXla.TTTorch.PagedCache

import TTXla.VllmTT.UpdateStates

namespace TTXla.VllmTT

-- `cdiv`.
def cdiv (a b : Nat) : Nat := (a + b - 1) / b

-- `_adjust_min_token`: a power of two, and at least 32.
def adjust_min_token (min_token_size : Nat) : Nat :=
  if min_token_size &&& (min_token_size - 1) = 0 ∧ 32 ≤ min_token_size then min_token_size
  else if 32 < min_token_size then 1 <<< (Nat.log2 (min_token_size - 1) + 1)
  else 32

-- The loop of `_get_token_paddings`: it doubles `num` until it covers `max_token_size`.
def doublings : Nat → Nat → Nat → List Nat
  | 0, num, _ => [num]
  | fuel + 1, num, max_token_size =>
      num :: if max_token_size ≤ num then [] else doublings fuel (num * 2) max_token_size

def get_token_paddings (min_token_size max_token_size : Nat) : List Nat :=
  1 :: doublings max_token_size (adjust_min_token min_token_size) max_token_size

-- `_get_padded_token_len`: the paddings ascend, so `bisect_left` finds the first
-- element that is large enough.
def get_padded_token_len (paddings : List Nat) (x : Nat) : Option Nat :=
  paddings.find? fun p => x ≤ p

-- `TTAttentionBackend.get_max_num_seqs`.
def get_max_num_seqs (model_len page_size : Nat) : Nat :=
  1024 * 1024 / 2 / cdiv model_len page_size / 4

namespace BaseConfig

variable (cfg : BaseConfig)

def max_num_blocks_per_req : Nat := cdiv cfg.max_model_len cfg.block_size

def num_blocks_per_most_len_req : Option Nat :=
  cfg.most_model_len.map fun len => cdiv len cfg.block_size

def num_reqs_most_model_len : Option Nat :=
  cfg.most_model_len.map fun len =>
    min (get_max_num_seqs len cfg.block_size) cfg.max_num_reqs

def num_reqs_max_model_len : Nat :=
  min (get_max_num_seqs cfg.max_model_len cfg.block_size) cfg.max_num_reqs

-- Whether some request needs more than `most_model_len`.
def use_max_model_len (counts : List Nat) : Bool :=
  match cfg.most_model_len with
  | none => true
  | some len => counts.any fun n => len < n

-- How many requests one execution takes.
def num_reqs_limit (counts : List Nat) : Nat :=
  if cfg.use_max_model_len counts then cfg.num_reqs_max_model_len
  else cfg.num_reqs_most_model_len.getD 0

-- How many columns of the page table it reads; a slice stops at the table's width.
def num_blocks (counts : List Nat) : Nat :=
  if cfg.use_max_model_len counts then cfg.max_num_blocks_per_req
  else min (cfg.num_blocks_per_most_len_req.getD 0) cfg.max_num_blocks_per_req

end BaseConfig

def RunnerConfig.num_tokens_paddings (cfg : RunnerConfig) : List Nat :=
  get_token_paddings (min cfg.min_context_len cfg.max_num_batched_tokens) cfg.max_model_len

def RunnerConfig.max_num_tokens (cfg : RunnerConfig) : Nat := cfg.num_tokens_paddings.getLastD 0

-- `InputBatch.make_lora_inputs`, the mapping of tokens to adapters: `np.repeat` takes one
-- count for each request, or one for all.
def make_lora_inputs {T : Type} (b : InputBatch T) (num_scheduled_tokens : List Int) :
    Option (List Nat) := do
  let req_lora_mapping := (List.range b.num_reqs).map b.request_lora_mapping
  guard (∀ n ∈ num_scheduled_tokens, 0 ≤ n)
  let counts ← match num_scheduled_tokens with
    | [n] => some (List.replicate b.num_reqs n)
    | ns => do guard (ns.length = b.num_reqs); some ns
  return (req_lora_mapping.zip counts).flatMap fun (lora, n) => List.replicate n.toNat lora

-- What `_prepare_inputs` hands to the model. The tensors have `max_num_reqs` rows and
-- `padded_len` columns; the page table has `num_users` rows and `num_cols` columns.
structure ModelInputs where
  padded_len : Nat
  input_ids : Nat → Nat → Token
  position_ids : Nat → Nat → Nat
  num_users : Nat
  num_cols : Nat
  page_table : Nat → Nat → Nat
  cache_position : List Int
  logits_indices : List Int
  token_lora_mapping : Option (List Nat)
  num_reqs : Nat
  end_index : Nat

namespace Runner

variable {T : Type} [BlockTable T]

-- The scheduled token counts of the rows from `start_index` on.
def scheduled_counts (b : InputBatch T) (so : SchedulerOutput) (start_index : Nat) :
    Option (List Nat) :=
  (List.range' start_index (b.num_reqs - start_index)).mapM fun i => do
    let req_id ← (b.req_ids[i]?).join
    so.num_scheduled_tokens.lookup req_id

-- The counts of the rows that one execution takes.
def chunk_counts (cfg : RunnerConfig) (b : InputBatch T) (so : SchedulerOutput)
    (start_index : Nat) : Option (List Nat) :=
  (scheduled_counts b so start_index).map fun counts => counts.take (cfg.num_reqs_limit counts)

-- `input_ids_cpu[i, :n] = token_ids_cpu_tensor[i, c : n + c]`: a slice cut short by the
-- end of the row has the wrong size, unless its one element broadcasts.
def sliceFits (width c n : Nat) : Prop := n = 0 ∨ c + n ≤ width ∨ c + 1 = width

instance (width c n : Nat) : Decidable (sliceFits width c n) :=
  inferInstanceAs (Decidable (_ ∨ _ ∨ _))

def readSlice {α : Type} (width : Nat) (row : Nat → α) (c n j : Nat) : α :=
  if c + n ≤ width then row (c + j) else row c

-- The buffers that are kept from one execution to the next.
def fill_buffers (rs : Runner T) (counts : List Nat) (num_cols limit : Nat) : Runner T :=
  let num_reqs := counts.length
  { rs with
    query_start_loc_np := fun i =>
      if i = 0 then 0 else if i ≤ num_reqs then (counts.take i).sum else 1
    seq_lens_cpu := fun i =>
      if i < num_reqs then rs.input_batch.num_computed_tokens_cpu i + counts.getD i 0
      else rs.seq_lens_cpu i
    -- the page table is a view of the buffer
    block_table_cpu := fun i j =>
      if i < num_reqs ∧ j < num_cols then BlockTable.entry rs.input_batch.block_table 0 i j
      else if num_reqs = 1 ∧ i < limit ∧ j < num_cols then 0
      else rs.block_table_cpu i j }

-- `set_active_loras`: the last request takes the padding.
def lora_mapping (cfg : BaseConfig) (b : InputBatch T) (counts : List Nat)
    (padded_len : Nat) : Option (Option (List Nat)) :=
  let padded_counts : List Int := counts.dropLast.map Nat.cast ++
    [(counts.getLastD 0 : Int) + (padded_len - counts.sum)]
  if cfg.lora_config then (make_lora_inputs b padded_counts).map some else some none

-- `_prepare_inputs`, with the number of requests that one execution takes as a parameter.
def prepare_inputs_upto (cfg : RunnerConfig) (num_reqs_limit : List Nat → Nat) (rs : Runner T)
    (so : SchedulerOutput) (start_index : Nat) : Option (ModelInputs × Runner T) := do
  let b := rs.input_batch
  guard (0 < so.total_num_scheduled_tokens)
  guard (0 < b.num_reqs)
  guard (start_index < b.num_reqs)
  let all_counts ← scheduled_counts b so start_index
  let limit := num_reqs_limit all_counts
  let num_cols := cfg.num_blocks all_counts
  let counts := all_counts.take limit
  let end_index := if limit < all_counts.length then start_index + limit else b.num_reqs
  let max_num_scheduled_tokens ← counts.max?
  guard (0 < max_num_scheduled_tokens)
  let num_reqs := counts.length
  let padded_len ← get_padded_token_len cfg.num_tokens_paddings max_num_scheduled_tokens
  guard (∀ i < num_reqs, sliceFits cfg.max_model_len (b.num_computed_tokens_cpu i)
    (counts.getD i 0))
  -- the cumulative sums and the sequence lengths fit in their buffers
  guard (num_reqs ≤ cfg.max_num_tokens)
  guard (0 < BlockTable.groups b.block_table)
  let rs := rs.fill_buffers counts num_cols limit
  let token_lora_mapping ← lora_mapping cfg.toBaseConfig b counts padded_len
  return (
    { padded_len := padded_len
      input_ids := fun i j =>
        if i < num_reqs ∧ j < counts.getD i 0 then
          -- the row is that of the batch, counted from 0
          readSlice cfg.max_model_len (b.token_ids_cpu i) (b.num_computed_tokens_cpu i)
            (counts.getD i 0) j
        else 0
      position_ids := fun i j =>
        if i < num_reqs ∧ j < counts.getD i 0 then b.num_computed_tokens_cpu i + j else 0
      num_users := limit
      num_cols := num_cols
      page_table := rs.block_table_cpu
      cache_position := (List.range (min limit cfg.max_num_tokens)).map fun i =>
        if num_reqs = 1 ∧ 0 < i then -1 else (rs.seq_lens_cpu i : Int) - 1
      logits_indices := (List.range (min cfg.max_num_reqs cfg.max_num_tokens)).map fun i =>
        (rs.query_start_loc_np (i + 1) : Int) - 1
      token_lora_mapping := token_lora_mapping
      num_reqs := num_reqs
      end_index := end_index }, rs)

def prepare_inputs (cfg : RunnerConfig) (rs : Runner T) (so : SchedulerOutput)
    (start_index : Nat) : Option (ModelInputs × Runner T) :=
  prepare_inputs_upto cfg cfg.num_reqs_limit rs so start_index

end Runner

end TTXla.VllmTT

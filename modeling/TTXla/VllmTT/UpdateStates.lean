import TTXla.VllmTT.InputBatch.Contents

namespace TTXla.VllmTT

-- What both model runners read from the configuration.
structure BaseConfig where
  max_num_seqs : Nat
  max_model_len : Nat
  max_num_batched_tokens : Nat
  block_size : Nat
  min_context_len : Nat
  -- VLLM_TPU_MOST_MODEL_LEN
  most_model_len : Option Nat
  vocab_size : Nat
  -- whether `lora_config` is set
  lora_config : Bool
  max_model_len_pos : 0 < max_model_len
  block_size_pos : 0 < block_size
  most_model_len_pos : ∀ len ∈ most_model_len, 0 < len

-- Smallest output size.
def MIN_NUM_SEQS : Nat := 1

def BaseConfig.max_num_reqs (cfg : BaseConfig) : Nat := max cfg.max_num_seqs MIN_NUM_SEQS

-- What `TTModelRunner.__init__` asserts.
structure RunnerConfig extends BaseConfig where
  max_model_len_le : max_model_len * max_num_seqs ≤ max_num_batched_tokens

-- The arguments of `InputBatch.__init__`.
def RunnerConfig.batch (cfg : RunnerConfig) : BatchConfig where
  is_pooling_model := false
  max_num_reqs := cfg.max_num_reqs
  max_model_len := cfg.max_model_len
  vocab_size := cfg.vocab_size
  max_model_len_pos := cfg.max_model_len_pos

-- `TTModelRunner`: the cached request states, the persistent batch, the heap of
-- output lists, the buffers reused from step to step, and the scheduler output kept
-- between `execute_model` and `sample_tokens`.
structure Runner (T : Type) where
  requests : Dict ReqId CachedRequestState
  num_prompt_logprobs : Dict ReqId Int
  input_batch : InputBatch T
  outs : OutRef → List Token
  next_ref : Nat
  block_table_cpu : Nat → Nat → Nat
  seq_lens_cpu : Nat → Nat
  query_start_loc_np : Nat → Nat
  scheduler_output : Option SchedulerOutput

-- The order in which a Python set is traversed: some enumeration of its elements.
structure SetOrder where
  order : List ReqId → List ReqId
  perm : ∀ l, (order l).Perm l

def SetOrder.asListed : SetOrder := ⟨id, fun _ => .refl _⟩

variable {T : Type} [BlockTable T]

-- `list.pop()` on a list that may be empty.
def popLast (removed : List Nat) : Option Nat × List Nat :=
  match removed.getLast? with
  | some i => (some i, removed.dropLast)
  | none => (none, removed)

-- `for a, b in zip(xs, ys): a.extend(b)`.
def zipExtend : List (List Nat) → List (List Nat) → List (List Nat)
  | a :: as, b :: bs => (a ++ b) :: zipExtend as bs
  | as, _ => as

namespace Runner

-- `__init__`.
def init (memory : InputBatch T) : Runner T where
  requests := ∅
  num_prompt_logprobs := ∅
  input_batch := InputBatch.init memory
  outs := fun _ => []
  next_ref := 0
  block_table_cpu := fun _ _ => 0
  seq_lens_cpu := fun _ => 0
  query_start_loc_np := fun _ => 0
  scheduler_output := none

-- Remove requests from the persistent batch, collecting the vacated rows.
def remove_all (cfg : BatchConfig) : List ReqId → InputBatch T × List Nat →
    Option (InputBatch T × List Nat)
  | [], s => some s
  | req_id :: ids, (b, removed_req_indices) => do
      let (req_index, b) ← b.remove_request cfg req_id
      remove_all cfg ids (b, removed_req_indices ++ req_index.toList)

-- The cached state of a new request, with a fresh output list and generator.
def new_state (ref : Nat) (d : NewRequestData) (sp : SamplingParams) : CachedRequestState where
  req_id := d.req_id
  prompt_token_ids := d.prompt_token_ids
  sampling_params := some sp
  pooling_params := none
  generator := if sp.sampling_type = .RANDOM_SEED then some ⟨ref, sp.seed⟩ else none
  block_ids := d.block_ids
  num_computed_tokens := d.num_computed_tokens
  output_token_ids := ref
  lora_request := d.lora_request

def add_new_req (cfg : RunnerConfig) (rs : Runner T) (d : NewRequestData) :
    Option (Runner T) := do
  -- "Pooling is not supported in TPU yet"
  let sp ← d.sampling_params
  return { rs with
    requests := rs.requests.insert d.req_id (new_state rs.next_ref d sp)
    outs := Function.update rs.outs rs.next_ref []
    next_ref := rs.next_ref + 1
    num_prompt_logprobs :=
      match sp.prompt_logprobs with
      | some n => rs.num_prompt_logprobs.insert d.req_id (if n = -1 then cfg.vocab_size else n)
      | none => rs.num_prompt_logprobs }

def add_new_reqs (cfg : RunnerConfig) : List NewRequestData → Runner T → Option (Runner T)
  | [], rs => some rs
  | d :: ds, rs => do
      let rs ← rs.add_new_req cfg d
      add_new_reqs cfg ds rs

-- The cached state of a running or resumed request.
def cached_state (resumed : Bool) (st : CachedRequestState) (d : CachedRequestData) :
    Option CachedRequestState :=
  match resumed, d.new_block_ids with
  | false, none => some { st with num_computed_tokens := d.num_computed_tokens }
  -- append the new blocks to the existing block ids
  | false, some new_block_ids => some { st with
      num_computed_tokens := d.num_computed_tokens
      block_ids := zipExtend st.block_ids new_block_ids }
  -- resumed from preemption: replace the existing block ids with the new ones
  | true, some new_block_ids => some { st with
      num_computed_tokens := d.num_computed_tokens
      block_ids := new_block_ids }
  | true, none => none

-- Update the row of a request that is already in the persistent batch.
def refresh_row (b : InputBatch T) (req_index num_computed_tokens : Nat)
    (new_block_ids : Option (List (List Nat))) : Option (InputBatch T) := do
  let b := { b with
    num_computed_tokens_cpu :=
      Function.update b.num_computed_tokens_cpu req_index num_computed_tokens }
  match new_block_ids with
  | none => return b
  | some ids => do
      let t ← BlockTable.append_row b.block_table ids req_index
      return { b with block_table := t }

-- One running or resumed request; it is collected if it is not in the persistent batch.
def update_cached_req (resumed_req_ids : Finset ReqId) (rs : Runner T)
    (req_ids_to_add : List ReqId) (d : CachedRequestData) :
    Option (Runner T × List ReqId) := do
  let req_state ← rs.requests.lookup d.req_id
  let req_state ← cached_state (decide (d.req_id ∈ resumed_req_ids)) req_state d
  let rs := { rs with requests := rs.requests.insert d.req_id req_state }
  match rs.input_batch.req_id_to_index.lookup d.req_id with
  | none => return (rs, req_ids_to_add ++ [d.req_id])
  | some req_index => do
      let b ← refresh_row rs.input_batch req_index d.num_computed_tokens d.new_block_ids
      return ({ rs with input_batch := b }, req_ids_to_add)

def update_cached_reqs (resumed_req_ids : Finset ReqId) :
    List CachedRequestData → Runner T × List ReqId → Option (Runner T × List ReqId)
  | [], s => some s
  | d :: ds, (rs, req_ids_to_add) => do
      let s ← update_cached_req resumed_req_ids rs req_ids_to_add d
      update_cached_reqs resumed_req_ids ds s

-- Add requests to the persistent batch; the smaller empty indices are filled first.
def add_all (cfg : BatchConfig) (outs : OutRef → List Token)
    (requests : Dict ReqId CachedRequestState) :
    List ReqId → InputBatch T × List Nat → Option (InputBatch T × List Nat)
  | [], s => some s
  | req_id :: ids, (b, removed_req_indices) => do
      let req_state ← requests.lookup req_id
      let (req_index, removed_req_indices) := popLast removed_req_indices
      let b ← b.add_request cfg outs req_state req_index
      add_all cfg outs requests ids (b, removed_req_indices)

-- `cached_req_ids - scheduled_req_ids`, as a set.
def unscheduled_req_ids (b : InputBatch T) (so : SchedulerOutput) : List ReqId :=
  b.req_id_to_index.keys.filter fun id => id ∉ so.num_scheduled_tokens

-- `for id in ids: d.pop(id, None)`.
def popAll {υ : Type} (d : Dict ReqId υ) (ids : List ReqId) : Dict ReqId υ :=
  ids.foldl (fun d id => d.erase id) d

-- `_update_states`.
def update_states (cfg : RunnerConfig) (sets : SetOrder) (rs : Runner T)
    (so : SchedulerOutput) : Option (Runner T) := do
  -- remove finished requests from the cached states
  let rs := { rs with
    requests := popAll rs.requests so.finished_req_ids
    num_prompt_logprobs := popAll rs.num_prompt_logprobs so.finished_req_ids }
  -- remove the finished and the unscheduled requests from the persistent batch
  let (b, removed) ← remove_all cfg.batch so.finished_req_ids (rs.input_batch, [])
  let (b, removed) ← remove_all cfg.batch (sets.order (unscheduled_req_ids b so)) (b, removed)
  let rs ← add_new_reqs cfg so.scheduled_new_reqs { rs with input_batch := b }
  let (rs, req_ids_to_add) ← update_cached_reqs so.resumed_req_ids so.scheduled_cached_reqs
    (rs, so.scheduled_new_reqs.map NewRequestData.req_id)
  let removed := InputBatch.sortedDesc removed
  let (b, removed) ← add_all cfg.batch rs.outs rs.requests req_ids_to_add
    (rs.input_batch, removed)
  -- condense the batched states if there are empty indices
  let b := if removed ≠ [] then b.condense removed else b
  return { rs with input_batch := b }

end Runner

end TTXla.VllmTT

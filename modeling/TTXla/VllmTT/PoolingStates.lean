import TTXla.VllmTT.PoolingRunner
import TTXla.VllmTT.UpdateStates.Theorems

-- `_update_states` of `TTPoolingModelRunner`.
namespace TTXla.VllmTT

-- The arguments of `InputBatch.__init__`, which assumes a pooling model by default.
def PoolingConfig.batch (cfg : PoolingConfig) : BatchConfig where
  is_pooling_model := true
  max_num_reqs := cfg.max_num_reqs
  max_model_len := cfg.max_model_len
  vocab_size := cfg.vocab_size
  max_model_len_pos := cfg.max_model_len_pos

-- The cached request states, the persistent batch, and the heap of output lists.
structure PoolingRunner (T : Type) where
  requests : Dict ReqId CachedRequestState
  input_batch : InputBatch T
  outs : OutRef → List Token
  next_ref : Nat

namespace PoolingRunner

variable {T : Type} [BlockTable T]

open Runner (popAll remove_all unscheduled_req_ids add_all)

-- `__init__`.
def init (memory : InputBatch T) : PoolingRunner T where
  requests := ∅
  input_batch := InputBatch.init memory
  outs := fun _ => []
  next_ref := 0

-- The cached state of a new request.
def new_state (ref : Nat) (d : NewRequestData) : CachedRequestState where
  req_id := d.req_id
  prompt_token_ids := d.prompt_token_ids
  sampling_params := d.sampling_params
  pooling_params := d.pooling_params
  generator := none
  block_ids := d.block_ids
  num_computed_tokens := d.num_computed_tokens
  output_token_ids := ref
  lora_request := d.lora_request

def add_new_req (ps : PoolingRunner T) (d : NewRequestData) : PoolingRunner T :=
  { ps with
    requests := ps.requests.insert d.req_id (new_state ps.next_ref d)
    outs := Function.update ps.outs ps.next_ref []
    next_ref := ps.next_ref + 1 }

def add_new_reqs (ds : List NewRequestData) (ps : PoolingRunner T) : PoolingRunner T :=
  ds.foldl add_new_req ps

-- One running or resumed request. `new_block_ids` is a name that the function never binds, so
-- that a request in the persistent batch raises `NameError`.
def update_cached_req (ps : PoolingRunner T) (req_ids_to_add : List ReqId)
    (d : CachedRequestData) : Option (PoolingRunner T × List ReqId) := do
  let req_state ← ps.requests.lookup d.req_id
  let req_state := { req_state with num_computed_tokens := d.num_computed_tokens }
  let ps := { ps with requests := ps.requests.insert d.req_id req_state }
  match ps.input_batch.req_id_to_index.lookup d.req_id with
  | none => return (ps, req_ids_to_add ++ [d.req_id])
  | some _ => none

def update_cached_reqs : List CachedRequestData → PoolingRunner T × List ReqId →
    Option (PoolingRunner T × List ReqId)
  | [], s => some s
  | d :: ds, (ps, req_ids_to_add) => do
      let s ← update_cached_req ps req_ids_to_add d
      update_cached_reqs ds s

-- `_update_states`.
def update_states (cfg : PoolingConfig) (sets : SetOrder) (ps : PoolingRunner T)
    (so : SchedulerOutput) : Option (PoolingRunner T) := do
  -- remove finished requests from the cached states
  let ps := { ps with requests := popAll ps.requests so.finished_req_ids }
  -- remove the finished and the unscheduled requests from the persistent batch
  let (b, removed) ← remove_all cfg.batch so.finished_req_ids (ps.input_batch, [])
  let (b, removed) ← remove_all cfg.batch (sets.order (unscheduled_req_ids b so)) (b, removed)
  let ps := add_new_reqs so.scheduled_new_reqs { ps with input_batch := b }
  let (ps, req_ids_to_add) ← update_cached_reqs so.scheduled_cached_reqs
    (ps, so.scheduled_new_reqs.map NewRequestData.req_id)
  let removed := InputBatch.sortedDesc removed
  let (b, removed) ← add_all cfg.batch ps.outs ps.requests req_ids_to_add
    (ps.input_batch, removed)
  -- condense the batched states if there are empty indices
  let b := if removed ≠ [] then b.condense removed else b
  return { ps with input_batch := b }

end PoolingRunner

end TTXla.VllmTT

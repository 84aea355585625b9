import TTXla.VllmTT.ModelRunner
import Mathlib.Data.Finset.Basic

-- The state of the scheduler, and what it uses of vLLM.
namespace TTXla.VllmTT.AscendScheduler

inductive RequestStatus where
  | WAITING
  | WAITING_FOR_FSM
  | WAITING_FOR_REMOTE_KVS
  | RUNNING
  | PREEMPTED
  | FINISHED_STOPPED
  | FINISHED_LENGTH_CAPPED
  | FINISHED_ABORTED
  | FINISHED_IGNORED
  deriving DecidableEq

-- `RequestStatus.is_finished`: what comes after `PREEMPTED`.
def RequestStatus.is_finished : RequestStatus → Bool
  | WAITING | WAITING_FOR_FSM | WAITING_FOR_REMOTE_KVS | RUNNING | PREEMPTED => false
  | FINISHED_STOPPED | FINISHED_LENGTH_CAPPED | FINISHED_ABORTED | FINISHED_IGNORED => true

-- The statuses of a request in the waiting queue.
def RequestStatus.is_waiting : RequestStatus → Bool
  | WAITING | WAITING_FOR_FSM | WAITING_FOR_REMOTE_KVS | PREEMPTED => true
  | _ => false

-- The fields of vLLM's `Request` that the scheduler reads or hands on.
structure Request where
  status : RequestStatus
  prompt_token_ids : List Token
  output_token_ids : List Token
  spec_token_ids : List Token
  num_computed_tokens : Nat
  num_cached_tokens : Int
  sampling_params : Option SamplingParams
  pooling_params : Option PoolingParams
  lora_request : Option LoRARequest

namespace Request

def num_tokens (r : Request) : Nat := r.prompt_token_ids.length + r.output_token_ids.length

def num_tokens_with_spec (r : Request) : Nat := r.num_tokens + r.spec_token_ids.length

end Request

structure KVCacheBlock where
  block_id : Nat
  ref_cnt : Nat
  deriving DecidableEq

-- `KVCacheBlocks`: a list of blocks for each group.
abbrev KVCacheBlocks := List (List KVCacheBlock)

def KVCacheBlocks.add (b b' : KVCacheBlocks) : KVCacheBlocks := List.zipWith (· ++ ·) b b'

def KVCacheBlocks.get_block_ids (b : KVCacheBlocks) : List (List Nat) :=
  b.map fun blocks => blocks.map KVCacheBlock.block_id

structure Config where
  max_num_scheduled_tokens : Nat
  max_num_running_reqs : Nat
  max_model_len : Nat
  block_size : Nat
  -- of the KV cache
  num_blocks : Nat
  num_lookahead_tokens : Nat
  watermark : ℚ
  -- `max_loras`, where `lora_config` is set
  lora_config : Option Nat

-- The attributes of a scheduler. The queues hold the ids of their requests, and `objs` the
-- `Request` object with an id; `requests` are the keys of the dict of that name. `kv` stands
-- for the state of the cache manager, the connector and the grammars.
structure Scheduler (K : Type) where
  waiting : List ReqId
  running : List ReqId
  requests : Finset ReqId
  objs : ReqId → Request
  scheduled_req_ids : Finset ReqId
  -- a set, in an order in which it may be traversed
  finished_req_ids : List ReqId
  forced_mode : Option Nat
  kv : K

-- The fields of vLLM's `SchedulerOutput` that come from the scheduling itself.
structure Output where
  scheduled_new_reqs : List NewRequestData
  scheduled_cached_reqs : List CachedRequestData
  resumed_req_ids : Finset ReqId
  num_scheduled_tokens : Dict ReqId Int
  total_num_scheduled_tokens : Int
  scheduled_spec_decode_tokens : Dict ReqId (List Token)
  finished_req_ids : List ReqId

def Output.req_ids (out : Output) : List ReqId :=
  out.scheduled_new_reqs.map NewRequestData.req_id ++
    out.scheduled_cached_reqs.map CachedRequestData.req_id

-- The argument of `finish_requests`: one id, ids that can be traversed again, or ids that are
-- used up when they are traversed.
inductive RequestIds where
  | str (s : String)
  | collection (ids : List ReqId)
  | iterator (ids : List ReqId)

namespace RequestIds

-- What a `for` loop over the argument goes through. A string is traversed by its characters.
def traverse : RequestIds → List ReqId
  | str s => s.toList.map fun c => String.ofList [c]
  | collection ids => ids
  | iterator ids => ids

-- What is left of the argument then.
def rest : RequestIds → RequestIds
  | str s => str s
  | collection ids => collection ids
  | iterator _ => iterator []

-- The requests that the argument names.
def named : RequestIds → List ReqId
  | str s => [s]
  | collection ids => ids
  | iterator ids => ids

end RequestIds

-- vLLM's `KVConnector`.
structure Connector (K : Type) where
  get_num_new_matched_tokens : K → ReqId → Request → Nat → K × Option Nat × Bool
  update_state_after_alloc : K → ReqId → Request → KVCacheBlocks → Nat → K
  build_connector_meta : K → K

-- What the scheduler calls of vLLM: the cache manager, the connector and its base class.
structure Base (K LP : Type) where
  get_computed_blocks : K → ReqId → Request → K × KVCacheBlocks × Nat
  create_empty_block_list : KVCacheBlocks
  allocate_slots : K → ReqId → Request → Int → Nat → Option KVCacheBlocks → Nat → Bool →
    K × Option KVCacheBlocks
  free : K → ReqId → K
  get_blocks : K → ReqId → List (List KVCacheBlock)
  get_num_free_blocks : K → Nat
  connector : Option (Connector K)
  -- it may set the number of computed tokens, and tells whether the request is ready
  update_waiting_for_remote_kv : K → ReqId → Request → K × Nat × Bool
  -- whether the request has a grammar that is compiled
  grammar_ready : K → ReqId → Bool
  make_cached_request_data : List (ReqId × Request) → List (ReqId × Request) →
    Dict ReqId Int → Dict ReqId (List Token) → Dict ReqId KVCacheBlocks →
    List CachedRequestData × Finset ReqId
  add_request : Scheduler K → ReqId → Request → Scheduler K
  finish_requests : Scheduler K → RequestIds → RequestStatus → Option (Scheduler K)
  update_from_output : Scheduler K → Output → ModelRunnerOutput LP → Option (Scheduler K)

-- The exceptions that `schedule` may raise.
inductive SchedulerError where
  | external_tokens
  | external_tokens_type
  | long_lora
  | num_new_tokens
  | block_groups
  | invalid_status
  | decode_tokens
  | preemption
  | total_tokens
  | token_budget
  | running_reqs
  | scheduled_reqs
  | key
  deriving DecidableEq

-- The variables of a call of `schedule`.
structure Pass (K : Type) where
  self : Scheduler K
  token_budget : Int
  scheduled_new_reqs : List ReqId
  scheduled_resumed_reqs : List ReqId
  scheduled_running_reqs : List ReqId
  preempted_reqs : List ReqId
  req_to_new_block_ids : Dict ReqId KVCacheBlocks
  num_scheduled_tokens : Dict ReqId Int
  scheduled_spec_decode_tokens : Dict ReqId (List Token)
  scheduled_loras : Finset Nat
  skipped_waiting_requests : List ReqId

end TTXla.VllmTT.AscendScheduler

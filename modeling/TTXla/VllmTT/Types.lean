import TTXla.Lib.Dict
import Mathlib.Data.Finset.Insert
import Mathlib.Data.Rat.Defs

namespace TTXla.VllmTT

abbrev ReqId := String
abbrev Token := Nat

inductive SamplingType where
  | GREEDY
  | RANDOM
  | RANDOM_SEED
  deriving DecidableEq

-- The fields of vLLM's `SamplingParams` that the plugin reads.
structure SamplingParams where
  sampling_type : SamplingType
  temperature : ℚ
  top_p : ℚ
  top_k : Int
  min_p : ℚ
  frequency_penalty : ℚ
  presence_penalty : ℚ
  repetition_penalty : ℚ
  min_tokens : Nat
  all_stop_token_ids : Finset Token
  logprobs : Option Int
  prompt_logprobs : Option Int
  logit_bias : Option (Dict Token ℚ)
  allowed_token_ids : Option (List Token)
  bad_words_token_ids : Option (List (List Token))
  seed : Int

structure PoolingParams where
  requires_token_ids : Bool
  deriving DecidableEq

structure LoRARequest where
  lora_int_id : Nat
  long_lora_max_len : Option Nat
  deriving DecidableEq

-- A `torch.Generator` object: its identity and the seed it was created with.
structure Generator where
  ref : Nat
  seed : Int
  deriving DecidableEq

-- The identity of an output token list. The list of a request is one Python
-- object, shared by its cached state and by the persistent batch.
abbrev OutRef := Nat

structure CachedRequestState where
  req_id : ReqId
  prompt_token_ids : List Token
  sampling_params : Option SamplingParams
  pooling_params : Option PoolingParams
  generator : Option Generator
  block_ids : List (List Nat)
  num_computed_tokens : Nat
  output_token_ids : OutRef
  lora_request : Option LoRARequest

-- `CachedRequestState.num_tokens`.
def CachedRequestState.num_tokens (outs : OutRef → List Token) (s : CachedRequestState) : Nat :=
  s.prompt_token_ids.length + (outs s.output_token_ids).length

def CachedRequestState.history (outs : OutRef → List Token) (s : CachedRequestState) :
    List Token :=
  s.prompt_token_ids ++ outs s.output_token_ids

@[simp] theorem CachedRequestState.length_history (outs : OutRef → List Token)
    (s : CachedRequestState) : (s.history outs).length = s.num_tokens outs := by
  simp [history, num_tokens]

structure NewRequestData where
  req_id : ReqId
  prompt_token_ids : List Token
  sampling_params : Option SamplingParams
  pooling_params : Option PoolingParams
  block_ids : List (List Nat)
  num_computed_tokens : Nat
  lora_request : Option LoRARequest

-- One position of the parallel lists of vLLM's `CachedRequestData`.
structure CachedRequestData where
  req_id : ReqId
  new_block_ids : Option (List (List Nat))
  num_computed_tokens : Nat

structure SchedulerOutput where
  scheduled_new_reqs : List NewRequestData
  scheduled_cached_reqs : List CachedRequestData
  resumed_req_ids : Finset ReqId
  num_scheduled_tokens : Dict ReqId Nat
  total_num_scheduled_tokens : Nat
  -- a Python set: the list is the order in which it is traversed
  finished_req_ids : List ReqId

end TTXla.VllmTT

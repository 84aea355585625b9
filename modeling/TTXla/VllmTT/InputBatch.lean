import TTXla.VllmTT.BlockTable
import TTXla.Lib.Slots
import Mathlib.Data.Finset.Card
import Mathlib.Data.List.Sort
import Mathlib.Data.Rat.Cast.Order
import Mathlib.Logic.Function.Basic

namespace TTXla.VllmTT

-- `_SAMPLING_EPS`.
def SAMPLING_EPS : ℚ := 1 / 100000

-- vLLM's `swap_dict_values`, known by what it does to each key.
class SwapDictValues where
  swap_dict_values {υ : Type} (d : Dict Nat υ) (i1 i2 : Nat) : Dict Nat υ
  lookup_swap {υ : Type} (d : Dict Nat υ) (i1 i2 k : Nat) :
    (swap_dict_values d i1 i2).lookup k =
      if k = i1 then d.lookup i2 else if k = i2 then d.lookup i1 else d.lookup k

export SwapDictValues (swap_dict_values)

instance : SwapDictValues := ⟨Dict.swapKeys, Dict.lookup_swapKeys⟩

structure BatchConfig where
  is_pooling_model : Bool
  max_num_reqs : Nat
  max_model_len : Nat
  vocab_size : Nat
  max_model_len_pos : 0 < max_model_len

-- The arrays are indexed by batch row, the dicts by batch row or by request id.
structure InputBatch (T : Type) where
  req_ids : List (Option ReqId)
  req_id_to_index : Dict ReqId Nat
  token_ids_cpu : Nat → Nat → Token
  num_tokens : Nat → Nat
  num_tokens_no_spec : Nat → Nat
  num_prompt_tokens : Nat → Nat
  num_computed_tokens_cpu : Nat → Nat
  block_table : T
  temperature_cpu : Nat → ℚ
  greedy_reqs : Finset ReqId
  random_reqs : Finset ReqId
  top_p_cpu : Nat → ℚ
  top_p_reqs : Finset ReqId
  top_k_cpu : Nat → Int
  top_k_reqs : Finset ReqId
  min_p_cpu : Nat → ℚ
  min_p_reqs : Finset ReqId
  frequency_penalties_cpu : Nat → ℚ
  frequency_penalties_reqs : Finset ReqId
  presence_penalties_cpu : Nat → ℚ
  presence_penalties_reqs : Finset ReqId
  repetition_penalties_cpu : Nat → ℚ
  repetition_penalties_reqs : Finset ReqId
  min_tokens : Dict Nat (Nat × Finset Token)
  request_lora_mapping : Nat → Nat
  lora_id_to_request_ids : Dict Nat (Finset ReqId)
  lora_id_to_lora_request : Dict Nat LoRARequest
  generators : Dict Nat Generator
  num_logprobs : Dict ReqId Int
  num_prompt_logprobs : Dict ReqId Int
  logit_bias : Nat → Option (Dict Token ℚ)
  has_allowed_token_ids : Finset ReqId
  allowed_token_ids_mask_cpu_tensor : Option (Nat → Token → Bool)
  bad_words_token_ids : Dict Nat (List (List Token))
  logits_processing_needs_token_ids : Nat → Bool
  req_output_token_ids : List (Option OutRef)
  pooling_params : Dict ReqId PoolingParams
  deriving Inhabited

-- `row[start : start + len(vals)] = vals`.
def writeAt {α : Type} (row : Nat → α) (start : Nat) (vals : List α) : Nat → α :=
  fun j => if start ≤ j then (vals[j - start]?).getD (row j) else row j

-- The same on a row of `width` entries: past the end NumPy raises, unless the one
-- element of `vals` broadcasts to an empty slice.
def npAssign {α : Type} (width : Nat) (row : Nat → α) (start : Nat) (vals : List α) :
    Option (Nat → α) :=
  if start + vals.length ≤ width then some (writeAt row start vals)
  else if vals.length ≤ 1 then some row
  else none

namespace InputBatch

variable {T : Type} [BlockTable T]

def num_reqs (b : InputBatch T) : Nat := b.req_id_to_index.keys.length

-- `__init__`: the arrays of `torch.empty` keep what `memory` holds, and so does the
-- block table, which is built elsewhere.
def init (memory : InputBatch T) : InputBatch T :=
  { memory with
    req_ids := []
    req_id_to_index := ∅
    token_ids_cpu := fun _ _ => 0
    num_tokens := fun _ => 0
    num_tokens_no_spec := fun _ => 0
    num_prompt_tokens := fun _ => 0
    num_computed_tokens_cpu := fun _ => 0
    greedy_reqs := ∅
    random_reqs := ∅
    top_p_reqs := ∅
    top_k_reqs := ∅
    min_p_reqs := ∅
    frequency_penalties_reqs := ∅
    presence_penalties_reqs := ∅
    repetition_penalties_reqs := ∅
    min_tokens := ∅
    request_lora_mapping := fun _ => 0
    lora_id_to_request_ids := ∅
    lora_id_to_lora_request := ∅
    generators := ∅
    num_logprobs := ∅
    num_prompt_logprobs := ∅
    logit_bias := fun _ => none
    has_allowed_token_ids := ∅
    allowed_token_ids_mask_cpu_tensor := none
    bad_words_token_ids := ∅
    logits_processing_needs_token_ids := fun _ => false
    req_output_token_ids := []
    pooling_params := ∅ }

-- The first part of `add_request`: the row list, the output list and the index.
def set_req_id (b : InputBatch T) (request : CachedRequestState) (req_index : Nat) :
    Option (InputBatch T) :=
  if req_index = b.req_ids.length then
    some { b with
      req_ids := b.req_ids ++ [some request.req_id]
      req_output_token_ids := b.req_output_token_ids ++ [some request.output_token_ids]
      req_id_to_index := b.req_id_to_index.insert request.req_id req_index }
  else if req_index < b.req_ids.length then
    some { b with
      req_ids := b.req_ids.set req_index (some request.req_id)
      req_output_token_ids := b.req_output_token_ids.set req_index (some request.output_token_ids)
      req_id_to_index := b.req_id_to_index.insert request.req_id req_index }
  else none

-- Copy the prompt and output token ids, and the counters.
def copy_token_ids (cfg : BatchConfig) (outs : OutRef → List Token) (b : InputBatch T)
    (request : CachedRequestState) (req_index : Nat) : Option (InputBatch T) := do
  let num_prompt_tokens := request.prompt_token_ids.length
  let row ← npAssign cfg.max_model_len (b.token_ids_cpu req_index) 0 request.prompt_token_ids
  let row ← npAssign cfg.max_model_len row num_prompt_tokens (outs request.output_token_ids)
  return { b with
    num_prompt_tokens := Function.update b.num_prompt_tokens req_index num_prompt_tokens
    token_ids_cpu := Function.update b.token_ids_cpu req_index row
    num_tokens := Function.update b.num_tokens req_index (request.num_tokens outs)
    num_tokens_no_spec := Function.update b.num_tokens_no_spec req_index (request.num_tokens outs)
    num_computed_tokens_cpu :=
      Function.update b.num_computed_tokens_cpu req_index request.num_computed_tokens }

-- Only manage block tables for models that need KV cache.
def add_block_row (b : InputBatch T) (request : CachedRequestState) (req_index : Nat) :
    Option (InputBatch T) := do
  if 0 < BlockTable.groups b.block_table then
    let t ← BlockTable.add_row b.block_table request.block_ids req_index
    return { b with block_table := t }
  else return b

-- `set.add` under a condition.
def addIf (c : Prop) [Decidable c] (s : Finset ReqId) (id : ReqId) : Finset ReqId :=
  if c then insert id s else s

def set_sampling_params (cfg : BatchConfig) (b : InputBatch T) (request : CachedRequestState)
    (sp : SamplingParams) (req_index : Nat) : InputBatch T :=
  let req_id := request.req_id
  let top_k := if 0 < sp.top_k ∧ sp.top_k < cfg.vocab_size then sp.top_k else cfg.vocab_size
  { b with
    temperature_cpu := Function.update b.temperature_cpu req_index
      (if sp.sampling_type = .GREEDY then 0 else sp.temperature)
    greedy_reqs := addIf (sp.sampling_type = .GREEDY) b.greedy_reqs req_id
    random_reqs := addIf (sp.sampling_type ≠ .GREEDY) b.random_reqs req_id
    top_p_cpu := Function.update b.top_p_cpu req_index sp.top_p
    top_p_reqs := addIf (sp.top_p < 1) b.top_p_reqs req_id
    top_k_reqs := addIf (0 < sp.top_k ∧ sp.top_k < cfg.vocab_size) b.top_k_reqs req_id
    top_k_cpu := Function.update b.top_k_cpu req_index top_k
    min_p_cpu := Function.update b.min_p_cpu req_index sp.min_p
    frequency_penalties_cpu :=
      Function.update b.frequency_penalties_cpu req_index sp.frequency_penalty
    min_p_reqs := addIf (sp.min_p > SAMPLING_EPS) b.min_p_reqs req_id
    frequency_penalties_reqs :=
      addIf (sp.frequency_penalty ≠ 0) b.frequency_penalties_reqs req_id
    presence_penalties_cpu :=
      Function.update b.presence_penalties_cpu req_index sp.presence_penalty
    presence_penalties_reqs := addIf (sp.presence_penalty ≠ 0) b.presence_penalties_reqs req_id
    repetition_penalties_cpu :=
      Function.update b.repetition_penalties_cpu req_index sp.repetition_penalty
    repetition_penalties_reqs :=
      addIf (sp.repetition_penalty ≠ 1) b.repetition_penalties_reqs req_id
    min_tokens :=
      if sp.min_tokens ≠ 0 then
        b.min_tokens.insert req_index (sp.min_tokens, sp.all_stop_token_ids)
      else b.min_tokens
    generators :=
      match request.generator with
      | some generator => b.generators.insert req_index generator
      | none => b.generators
    num_logprobs :=
      match sp.logprobs with
      | some n => b.num_logprobs.insert req_id n
      | none => b.num_logprobs
    num_prompt_logprobs :=
      match sp.prompt_logprobs with
      | some n => b.num_prompt_logprobs.insert req_id n
      | none => b.num_prompt_logprobs
    logit_bias :=
      match sp.logit_bias with
      | some bias => Function.update b.logit_bias req_index (some bias)
      | none => b.logit_bias
    has_allowed_token_ids :=
      addIf (sp.allowed_token_ids.getD [] ≠ []) b.has_allowed_token_ids req_id
    allowed_token_ids_mask_cpu_tensor :=
      if sp.allowed_token_ids.getD [] ≠ [] then
        -- allocated on first use; False means the logit is not filled with -inf
        let mask := b.allowed_token_ids_mask_cpu_tensor.getD fun _ _ => false
        some (Function.update mask req_index fun token =>
          !(sp.allowed_token_ids.getD []).contains token)
      else b.allowed_token_ids_mask_cpu_tensor
    bad_words_token_ids :=
      if sp.bad_words_token_ids.getD [] ≠ [] then
        b.bad_words_token_ids.insert req_index (sp.bad_words_token_ids.getD [])
      else b.bad_words_token_ids }

def set_pooling_params (b : InputBatch T) (request : CachedRequestState) (pp : PoolingParams)
    (req_index : Nat) : InputBatch T :=
  { b with
    pooling_params := b.pooling_params.insert request.req_id pp
    logits_processing_needs_token_ids :=
      Function.update b.logits_processing_needs_token_ids req_index pp.requires_token_ids }

-- The sampling parameters, else the pooling parameters, else `NotImplementedError`.
def set_params (cfg : BatchConfig) (b : InputBatch T) (request : CachedRequestState)
    (req_index : Nat) : Option (InputBatch T) :=
  match request.sampling_params, request.pooling_params with
  | some sp, _ => some (b.set_sampling_params cfg request sp req_index)
  | none, some pp => some (b.set_pooling_params request pp req_index)
  | none, none => none

def set_lora (b : InputBatch T) (request : CachedRequestState) (req_index : Nat) :
    InputBatch T :=
  match request.lora_request with
  | some lora =>
      let lora_id := lora.lora_int_id
      let ids := (b.lora_id_to_request_ids.lookup lora_id).getD ∅
      { b with
        request_lora_mapping := Function.update b.request_lora_mapping req_index lora_id
        lora_id_to_request_ids :=
          b.lora_id_to_request_ids.insert lora_id (insert request.req_id ids)
        lora_id_to_lora_request := b.lora_id_to_lora_request.insert lora_id lora }
  | none =>
      { b with request_lora_mapping := Function.update b.request_lora_mapping req_index 0 }

def add_request (cfg : BatchConfig) (outs : OutRef → List Token) (b : InputBatch T)
    (request : CachedRequestState) (req_index : Option Nat) : Option (InputBatch T) := do
  let req_index := req_index.getD b.num_reqs
  guard (req_index < cfg.max_num_reqs)
  let b ← b.set_req_id request req_index
  let b ← b.copy_token_ids cfg outs request req_index
  let b ← b.add_block_row request req_index
  let b ← b.set_params cfg request req_index
  return b.set_lora request req_index

-- `remove_request` on the LoRA maps.
def remove_lora (b : InputBatch T) (req_id : ReqId) (req_index : Nat) : Option (InputBatch T) :=
  let lora_id := b.request_lora_mapping req_index
  if lora_id ≠ 0 then do
    let ids ← b.lora_id_to_request_ids.lookup lora_id
    let ids := ids.erase req_id
    let b := { b with
      lora_id_to_request_ids := b.lora_id_to_request_ids.insert lora_id ids
      request_lora_mapping := Function.update b.request_lora_mapping req_index 0 }
    if ids.card = 0 then do
      guard (lora_id ∈ b.lora_id_to_lora_request)
      return { b with
        lora_id_to_request_ids := b.lora_id_to_request_ids.erase lora_id
        lora_id_to_lora_request := b.lora_id_to_lora_request.erase lora_id }
    else return b
  else some b

-- `remove_request` on the sampling state.
def reset_sampling (b : InputBatch T) (req_id : ReqId) (req_index : Nat) : InputBatch T :=
  { b with
    greedy_reqs := b.greedy_reqs.erase req_id
    random_reqs := b.random_reqs.erase req_id
    top_p_reqs := b.top_p_reqs.erase req_id
    top_k_reqs := b.top_k_reqs.erase req_id
    min_p_reqs := b.min_p_reqs.erase req_id
    min_tokens := b.min_tokens.erase req_index
    frequency_penalties_reqs := b.frequency_penalties_reqs.erase req_id
    presence_penalties_reqs := b.presence_penalties_reqs.erase req_id
    repetition_penalties_reqs := b.repetition_penalties_reqs.erase req_id
    generators := b.generators.erase req_index
    num_logprobs := b.num_logprobs.erase req_id
    num_prompt_logprobs := b.num_prompt_logprobs.erase req_id
    logit_bias := Function.update b.logit_bias req_index none
    has_allowed_token_ids := b.has_allowed_token_ids.erase req_id
    allowed_token_ids_mask_cpu_tensor :=
      b.allowed_token_ids_mask_cpu_tensor.map fun mask =>
        Function.update mask req_index fun _ => false
    bad_words_token_ids := b.bad_words_token_ids.erase req_index }

-- Returns the removed request's index, or `none` if the id is not in the batch.
def remove_request (cfg : BatchConfig) (b : InputBatch T) (req_id : ReqId) :
    Option (Option Nat × InputBatch T) :=
  match b.req_id_to_index.lookup req_id with
  | none => some (none, b)
  | some req_index => do
      let b := { b with
        req_id_to_index := b.req_id_to_index.erase req_id
        req_ids := b.req_ids.set req_index none
        req_output_token_ids := b.req_output_token_ids.set req_index none }
      let b ← b.remove_lora req_id req_index
      if cfg.is_pooling_model then
        return (some req_index, { b with pooling_params := b.pooling_params.erase req_id })
      else return (some req_index, b.reset_sampling req_id req_index)

-- Exchange two entries of an array.
def swapAt {α : Type} (a : Nat → α) (i1 i2 : Nat) : Nat → α :=
  Function.update (Function.update a i1 (a i2)) i2 (a i1)

def swap_states [SwapDictValues] (b : InputBatch T) (i1 i2 : Nat) : Option (InputBatch T) := do
  let old_id_i1 ← (b.req_ids[i1]?).join
  let old_id_i2 ← (b.req_ids[i2]?).join
  let index_i1 ← b.req_id_to_index.lookup old_id_i1
  let index_i2 ← b.req_id_to_index.lookup old_id_i2
  return { b with
    req_ids := (b.req_ids.set i1 (some old_id_i2)).set i2 (some old_id_i1)
    req_output_token_ids :=
      (b.req_output_token_ids.set i1 (b.req_output_token_ids[i2]?).join).set i2
        (b.req_output_token_ids[i1]?).join
    req_id_to_index :=
      (b.req_id_to_index.insert old_id_i1 index_i2).insert old_id_i2 index_i1
    num_tokens := swapAt b.num_tokens i1 i2
    num_tokens_no_spec := swapAt b.num_tokens_no_spec i1 i2
    num_prompt_tokens := swapAt b.num_prompt_tokens i1 i2
    num_computed_tokens_cpu := swapAt b.num_computed_tokens_cpu i1 i2
    token_ids_cpu := swapAt b.token_ids_cpu i1 i2
    block_table :=
      if 0 < BlockTable.groups b.block_table then BlockTable.swap_row b.block_table i1 i2
      else b.block_table
    request_lora_mapping := swapAt b.request_lora_mapping i1 i2
    temperature_cpu := swapAt b.temperature_cpu i1 i2
    top_p_cpu := swapAt b.top_p_cpu i1 i2
    top_k_cpu := swapAt b.top_k_cpu i1 i2
    frequency_penalties_cpu := swapAt b.frequency_penalties_cpu i1 i2
    presence_penalties_cpu := swapAt b.presence_penalties_cpu i1 i2
    repetition_penalties_cpu := swapAt b.repetition_penalties_cpu i1 i2
    min_p_cpu := swapAt b.min_p_cpu i1 i2
    generators := swap_dict_values b.generators i1 i2
    min_tokens := swap_dict_values b.min_tokens i1 i2
    bad_words_token_ids := swap_dict_values b.bad_words_token_ids i1 i2
    logit_bias := swapAt b.logit_bias i1 i2
    -- the right-hand sides are views of the tensor: the second row is read back
    -- after the first has been overwritten with it
    allowed_token_ids_mask_cpu_tensor :=
      b.allowed_token_ids_mask_cpu_tensor.map fun mask =>
        let mask := Function.update mask i1 (mask i2)
        Function.update mask i2 (mask i1) }

-- One iteration of the loop in `condense`: the request in row `last_req_index` moves
-- to the vacant row `empty_index`.
def condense_move (b : InputBatch T) (last_req_index empty_index : Nat) : InputBatch T :=
  match (b.req_ids[last_req_index]?).join with
  | none => b
  | some req_id =>
      let num_tokens := b.num_tokens last_req_index
      { b with
        req_ids := (b.req_ids.set empty_index (some req_id)).set last_req_index none
        req_output_token_ids :=
          (b.req_output_token_ids.set empty_index
            (b.req_output_token_ids[last_req_index]?).join).set last_req_index none
        req_id_to_index := b.req_id_to_index.insert req_id empty_index
        token_ids_cpu := Function.update b.token_ids_cpu empty_index fun j =>
          if j < num_tokens then b.token_ids_cpu last_req_index j
          else b.token_ids_cpu empty_index j
        num_tokens := Function.update b.num_tokens empty_index num_tokens
        num_tokens_no_spec :=
          Function.update b.num_tokens_no_spec empty_index (b.num_tokens_no_spec last_req_index)
        num_prompt_tokens :=
          Function.update b.num_prompt_tokens empty_index (b.num_prompt_tokens last_req_index)
        num_computed_tokens_cpu := Function.update b.num_computed_tokens_cpu empty_index
          (b.num_computed_tokens_cpu last_req_index)
        block_table :=
          if 0 < BlockTable.groups b.block_table then
            BlockTable.move_row b.block_table last_req_index empty_index
          else b.block_table
        request_lora_mapping := Function.update b.request_lora_mapping empty_index
          (b.request_lora_mapping last_req_index)
        temperature_cpu :=
          Function.update b.temperature_cpu empty_index (b.temperature_cpu last_req_index)
        top_p_cpu := Function.update b.top_p_cpu empty_index (b.top_p_cpu last_req_index)
        top_k_cpu := Function.update b.top_k_cpu empty_index (b.top_k_cpu last_req_index)
        frequency_penalties_cpu := Function.update b.frequency_penalties_cpu empty_index
          (b.frequency_penalties_cpu last_req_index)
        presence_penalties_cpu := Function.update b.presence_penalties_cpu empty_index
          (b.presence_penalties_cpu last_req_index)
        repetition_penalties_cpu := Function.update b.repetition_penalties_cpu empty_index
          (b.repetition_penalties_cpu last_req_index)
        min_p_cpu := Function.update b.min_p_cpu empty_index (b.min_p_cpu last_req_index)
        generators := Dict.moveKey b.generators last_req_index empty_index
        min_tokens := Dict.moveKey b.min_tokens last_req_index empty_index
        logit_bias := Function.update b.logit_bias empty_index (b.logit_bias last_req_index)
        allowed_token_ids_mask_cpu_tensor :=
          b.allowed_token_ids_mask_cpu_tensor.map fun mask =>
            Function.update mask empty_index (mask last_req_index)
        bad_words_token_ids := Dict.moveKey b.bad_words_token_ids last_req_index empty_index }

-- Trim the row lists to the batch size.
def trim (b : InputBatch T) (num_reqs : Nat) : InputBatch T :=
  { b with
    req_ids := b.req_ids.take num_reqs
    req_output_token_ids := b.req_output_token_ids.take num_reqs }

-- `empty_req_indices` is sorted in descending order and popped from its end.
def condense (b : InputBatch T) (empty_req_indices : List Nat) : InputBatch T :=
  let num_reqs := b.num_reqs
  if num_reqs = 0 then { b with req_ids := [], req_output_token_ids := [] }
  else
    let last_req_index := num_reqs + empty_req_indices.length - 1
    (Slots.compact condense_move b last_req_index empty_req_indices.reverse).trim num_reqs

end InputBatch

end TTXla.VllmTT

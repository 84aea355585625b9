import TTXla.VllmTT.ModelRunner

-- The compiled functions that the runner calls: those of the warm-up, and those of a step.
namespace TTXla.VllmTT

-- The branches that tracing `Sampler.sample` takes, and which of its tensors are given.
structure SamplerGraph where
  no_allowed_token_ids : Bool
  no_min_tokens : Bool
  no_bad_words : Bool
  no_logit_bias : Bool
  no_penalties : Bool
  all_random : Bool
  min_p : Bool
  top_k : Bool
  top_p : Bool
  q_samples : Bool
  deriving DecidableEq

-- A call with the shapes of its inputs. The tensors of the decoder have `max_num_reqs` rows.
inductive CompiledCall where
  | model (num_tokens num_users num_cols num_positions : Nat)
  | select_hidden_states (num_tokens num_seqs : Nat)
  | compute_logits (num_seqs : Nat)
  | structured_decode (num_seqs : Nat)
  -- without the sampler when all is greedy
  | sample_from_logits (num_seqs : Nat) (graph : Option SamplerGraph)
  | gather_logprobs (num_seqs : Nat)
  deriving DecidableEq

structure WarmupConfig extends RunnerConfig where
  cpu_sampling : Bool

namespace SamplingMetadata

-- What is traced of `sample_from_logits`.
def traced (md : SamplingMetadata) : Option SamplerGraph :=
  if md.all_greedy && md.no_penalties && md.no_logit_bias && md.no_bad_words &&
      md.no_allowed_token_ids && md.no_min_tokens && md.no_generators then none
  else some
    { no_allowed_token_ids := md.no_allowed_token_ids
      no_min_tokens := md.no_min_tokens
      no_bad_words := md.no_bad_words
      no_logit_bias := md.no_logit_bias
      no_penalties := md.no_penalties
      all_random := md.all_random
      min_p := md.min_p.isSome
      top_k := md.top_k.isSome
      top_p := md.top_p.isSome
      q_samples := md.q_samples.isSome }

-- `from_input_batch` with `generate_params_if_all_greedy`.
def from_input_batch_generating {T : Type} (b : InputBatch T) (outs : OutRef → List Token)
    (batch_vocab_size : Nat) (padded_num_reqs : Nat) (vocab_size : Option Nat) :
    Option (SamplingMetadata × InputBatch T) := do
  guard (in_range b outs batch_vocab_size padded_num_reqs vocab_size)
  guard (b.no_allowed_token_ids = true ∨ b.allowed_token_ids_mask_cpu_tensor.isSome)
  let md := base b outs batch_vocab_size padded_num_reqs
  return with_params b outs padded_num_reqs vocab_size md

end SamplingMetadata

namespace Runner

variable {T : Type} [BlockTable T] {κ H LP : Type}

section Capture

variable (cfg : WarmupConfig)

def _dummy_run (num_tokens num_reqs num_blocks : Nat) : CompiledCall :=
  .model num_tokens num_reqs num_blocks num_reqs

def _precompile_backbone : List CompiledCall :=
  cfg.num_tokens_paddings.flatMap fun num_tokens =>
    _dummy_run num_tokens cfg.num_reqs_max_model_len cfg.max_num_blocks_per_req ::
      match cfg.num_reqs_most_model_len, cfg.num_blocks_per_most_len_req with
      | some num_reqs, some num_blocks => [_dummy_run num_tokens num_reqs num_blocks]
      | _, _ => []

def _precompile_select_hidden_states : List CompiledCall :=
  cfg.num_tokens_paddings.map fun num_tokens => .select_hidden_states num_tokens cfg.max_num_reqs

def _precompile_compute_logits : List CompiledCall := [.compute_logits cfg.max_num_reqs]

def _precompile_structured_decoding : List CompiledCall := [.structured_decode cfg.max_num_reqs]

-- The metadata come from the batch of the runner.
def _precompile_sample_from_logits (rs : Runner T) : Option (List CompiledCall × Runner T) := do
  let (random, b) ← SamplingMetadata.from_input_batch_generating rs.input_batch rs.outs
    cfg.vocab_size cfg.max_num_reqs (some cfg.vocab_size)
  let (greedy, b) ← SamplingMetadata.from_input_batch b rs.outs cfg.vocab_size cfg.max_num_reqs
    (some cfg.vocab_size)
  let traced := fun (md : SamplingMetadata) all_greedy =>
    CompiledCall.sample_from_logits cfg.max_num_reqs
      { md with all_greedy := all_greedy : SamplingMetadata }.traced
  return ([traced random false, traced greedy true], { rs with input_batch := b })

def _precompile_gather_logprobs : List CompiledCall := [.gather_logprobs cfg.max_num_reqs]

def capture_model (rs : Runner T) : Option (List CompiledCall × Runner T) := do
  let sampling := if cfg.cpu_sampling then some ([], rs)
    else _precompile_sample_from_logits cfg rs
  let (sampling, rs) ← sampling
  return (_precompile_backbone cfg ++ _precompile_select_hidden_states cfg ++
    _precompile_compute_logits cfg ++ _precompile_structured_decoding cfg ++ sampling ++
    _precompile_gather_logprobs cfg, rs)

end Capture

section Steps

variable (cfg : WarmupConfig) (mode : OutOfRange) (model : Model κ H LP) (so : SchedulerOutput)
  (grammar_output : Option GrammarOutput)

-- The calls of one execution, whose inputs are these.
def execution_calls (inp : ModelInputs) (si : SamplerInputs) : List CompiledCall :=
  let num_seqs := inp.logits_indices.length
  [.model inp.padded_len inp.num_users inp.num_cols inp.cache_position.length,
    .select_hidden_states inp.padded_len num_seqs, .compute_logits num_seqs] ++
  (if si.grammar_bitmask.isSome then [.structured_decode num_seqs] else []) ++
  [.sample_from_logits num_seqs si.metadata.traced] ++
  (if si.metadata.logprobs then [.gather_logprobs num_seqs] else [])

def chunk_calls (rs : Runner T) (k : κ) (start_index : Nat) : Option (List CompiledCall) := do
  let (inp, rs) ← prepare_inputs cfg.toRunnerConfig rs so start_index
  let (_, hidden_states) ← model.forward k inp
  let _ ← select_hidden_states mode hidden_states inp.padded_len inp.logits_indices
  let (si, _) ← sampler_inputs cfg.toRunnerConfig rs grammar_output
  return execution_calls inp si

def chunks_calls : Nat → Runner T → κ → Nat → Option (List CompiledCall)
  | 0, rs, _, start_index => if start_index < rs.input_batch.num_reqs then none else some []
  | fuel + 1, rs, k, start_index =>
      if start_index < rs.input_batch.num_reqs then do
        let calls ← chunk_calls cfg mode model so grammar_output rs k start_index
        let (e, rs, k) ←
          execute_chunk cfg.toRunnerConfig mode model so grammar_output rs k start_index
        let rest ← chunks_calls fuel rs k e.end_index
        return calls ++ rest
      else some []

-- `_get_prompt_logprobs_dict`: the positions of each prompt, in batches of `max_num_reqs`.
def prompt_logprobs_calls (rs : Runner T) : List CompiledCall :=
  rs.num_prompt_logprobs.entries.flatMap fun e =>
    match rs.requests.lookup e.1, so.num_scheduled_tokens.lookup e.1 with
    | some request, some num_tokens =>
        let num_remaining := request.prompt_token_ids.length - (request.num_computed_tokens + 1)
        let num_logits := min num_tokens num_remaining
        (List.range (cdiv num_logits cfg.max_num_reqs)).flatMap fun _ =>
          [.compute_logits cfg.max_num_reqs, .gather_logprobs cfg.max_num_reqs]
    | _, _ => []

-- The calls of `sample_tokens`, when a scheduler output is pending.
def scheduled_calls (rs : Runner T) (k : κ) : Option (List CompiledCall) := do
  let rs := { rs with scheduler_output := none }
  let calls ← chunks_calls cfg mode model so grammar_output rs.input_batch.num_reqs rs k 0
  return calls ++ prompt_logprobs_calls cfg so rs

end Steps

end Runner

end TTXla.VllmTT

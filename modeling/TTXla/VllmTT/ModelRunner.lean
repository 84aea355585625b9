import TTXla.VllmTT.SelectHiddenStates
import TTXla.VllmTT.SamplingMetadata

namespace TTXla.VllmTT

structure GrammarOutput where
  structured_output_request_ids : List ReqId
  grammar_bitmask : List (List Nat)

-- The graphs that are compiled elsewhere: the decoder with the state it keeps on the
-- device, the sampler over the selected hidden states (with the logits and the structured
-- decoding), and the gathering of logprobs.
structure Model (κ H LP : Type) where
  forward : κ → ModelInputs → Option (κ × (Nat → Nat → H))
  sample : List H → SamplingMetadata → Option (Nat → Option (List Nat)) → List Token
  gather_logprobs : List H → List Token → List LP

structure ModelRunnerOutput (LP : Type) where
  req_ids : List ReqId
  req_id_to_index : Dict ReqId Nat
  sampled_token_ids : List (List Token)
  logprobs : Option (List LP)

namespace Runner

variable {T : Type} [BlockTable T] {κ H LP : Type}

-- `prepare_structured_decoding_input`: the bitmask of each row that requires structured
-- output.
def prepare_structured_decoding_input (b : InputBatch T) (grammar_output : GrammarOutput) :
    Option (Nat → Option (List Nat)) :=
  let fill (s : (Nat → Option (List Nat)) × Nat) (req_id : ReqId) :
      Option ((Nat → Option (List Nat)) × Nat) :=
    match b.req_id_to_index.lookup req_id with
    | none => some s
    | some batch_index => do
        let row ← grammar_output.grammar_bitmask[s.2]?
        return (Function.update s.1 batch_index (some row), s.2 + 1)
  (grammar_output.structured_output_request_ids.foldlM fill (fun _ => none, 0)).map Prod.fst

-- What the sampler of one execution is given, apart from the hidden states.
structure SamplerInputs where
  metadata : SamplingMetadata
  grammar_bitmask : Option (Nat → Option (List Nat))

def sampler_inputs (cfg : RunnerConfig) (rs : Runner T) (grammar_output : Option GrammarOutput) :
    Option (SamplerInputs × Runner T) := do
  let (metadata, b) ← SamplingMetadata.from_input_batch rs.input_batch rs.outs cfg.vocab_size
    cfg.max_num_reqs (some cfg.vocab_size)
  let rs := { rs with input_batch := b }
  match grammar_output with
  | none => return (⟨metadata, none⟩, rs)
  | some g => do
      let bitmask ← prepare_structured_decoding_input b g
      return (⟨metadata, some bitmask⟩, rs)

-- What one execution computes: the tokens without the padding rows, and the logprobs of
-- every row of the padded batch.
structure Execution (LP : Type) where
  tokens : List Token
  logprobs : Option (List LP)
  end_index : Nat

-- One iteration of the loop in `sample_tokens`.
def execute_chunk (cfg : RunnerConfig) (mode : OutOfRange) (model : Model κ H LP)
    (so : SchedulerOutput) (grammar_output : Option GrammarOutput) (rs : Runner T) (k : κ)
    (start_index : Nat) : Option (Execution LP × Runner T × κ) := do
  let (inp, rs) ← prepare_inputs cfg rs so start_index
  let (k, hidden_states) ← model.forward k inp
  let picked ← select_hidden_states mode hidden_states inp.padded_len inp.logits_indices
  let (si, rs) ← sampler_inputs cfg rs grammar_output
  let selected_token_ids := model.sample picked si.metadata si.grammar_bitmask
  let logprobs := if si.metadata.logprobs then
    some (model.gather_logprobs picked selected_token_ids) else none
  return (⟨selected_token_ids.take inp.num_reqs, logprobs, inp.end_index⟩, rs, k)

-- The loop itself; every execution takes at least one request.
def execute_chunks (cfg : RunnerConfig) (mode : OutOfRange) (model : Model κ H LP)
    (so : SchedulerOutput) (grammar_output : Option GrammarOutput) :
    Nat → Runner T → κ → Nat → Option (List (Execution LP) × Runner T × κ)
  | 0, rs, k, start_index => if start_index < rs.input_batch.num_reqs then none else some ([], rs, k)
  | fuel + 1, rs, k, start_index =>
      if start_index < rs.input_batch.num_reqs then do
        let (e, rs, k) ← execute_chunk cfg mode model so grammar_output rs k start_index
        let (es, rs, k) ← execute_chunks cfg mode model so grammar_output fuel rs k e.end_index
        return (e :: es, rs, k)
      else some ([], rs, k)

-- The length of a request's sequence after the step.
def row_seq_len (rs : Runner T) (so : SchedulerOutput) (i : Nat) :
    Option (Nat × CachedRequestState × Nat) := do
  let req_id ← (rs.input_batch.req_ids[i]?).join
  let req_state ← rs.requests.lookup req_id
  let n ← so.num_scheduled_tokens.lookup req_id
  return (i, req_state, req_state.num_computed_tokens + n)

-- Append a sampled token to both copies of the history.
def append_token (cfg : RunnerConfig) (sampled_token_ids : List (List Token)) (rs : Runner T)
    (e : Nat × CachedRequestState × Nat) : Option (Runner T) := do
  let (i, req_state, seq_len) := e
  let sampled ← sampled_token_ids[i]?
  let token_id ← sampled.head?
  guard (seq_len < cfg.max_model_len)
  let b := rs.input_batch
  let ref := req_state.output_token_ids
  return { rs with
    input_batch := { b with
      token_ids_cpu := Function.update b.token_ids_cpu i
        (Function.update (b.token_ids_cpu i) seq_len token_id)
      num_tokens := Function.update b.num_tokens i (b.num_tokens i + 1) }
    outs := Function.update rs.outs ref (rs.outs ref ++ [token_id]) }

-- Clear the token of a partial request.
def discard_token (sampled_token_ids : List (List Token)) (i : Nat) :
    Option (List (List Token)) :=
  if i < sampled_token_ids.length then some (sampled_token_ids.set i []) else none

-- Update the cached states; each request has one sampled token.
def append_tokens (cfg : RunnerConfig) (rs : Runner T) (so : SchedulerOutput)
    (selected_token_ids : List Token) : Option (List (List Token) × Runner T) := do
  let seq_lens ← (List.range rs.input_batch.num_reqs).mapM (row_seq_len rs so)
  let sampling := fun e : Nat × CachedRequestState × Nat => e.2.1.num_tokens rs.outs ≤ e.2.2
  let discarded := (seq_lens.filter fun e => ¬sampling e).map Prod.fst
  let valid ← discarded.foldlM discard_token (selected_token_ids.map fun t => [t])
  let rs ← (seq_lens.filter fun e => sampling e).foldlM (append_token cfg valid) rs
  return (valid, rs)

-- `sample_tokens`, when a scheduler output is pending.
def sample_scheduled (cfg : RunnerConfig) (mode : OutOfRange) (model : Model κ H LP)
    (grammar_output : Option GrammarOutput) (rs : Runner T) (k : κ) (so : SchedulerOutput) :
    Option (ModelRunnerOutput LP × Runner T × κ) := do
  let rs := { rs with scheduler_output := none }
  -- nothing to concatenate
  guard (0 < rs.input_batch.num_reqs)
  let (es, rs, k) ← execute_chunks cfg mode model so grammar_output rs.input_batch.num_reqs rs k 0
  let logprobs := es.mapM Execution.logprobs
  let (valid, rs) ← append_tokens cfg rs so (es.flatMap Execution.tokens)
  return ({ req_ids := rs.input_batch.req_ids.reduceOption
            req_id_to_index := rs.input_batch.req_id_to_index
            sampled_token_ids := valid
            logprobs := logprobs.map List.flatten }, rs, k)

def sample_tokens (cfg : RunnerConfig) (mode : OutOfRange) (model : Model κ H LP)
    (grammar_output : Option GrammarOutput) (rs : Runner T) (k : κ) :
    Option (Option (ModelRunnerOutput LP) × Runner T × κ) :=
  match rs.scheduler_output with
  | none => some (none, rs, k)
  | some so => do
      let (out, rs, k) ← sample_scheduled cfg mode model grammar_output rs k so
      return (some out, rs, k)

-- `execute_model`.
def execute_model (cfg : RunnerConfig) (sets : SetOrder) (rs : Runner T)
    (so : SchedulerOutput) : Option (Runner T) := do
  -- `sample_tokens` must be called first
  guard rs.scheduler_output.isNone
  let rs ← update_states cfg sets rs so
  if so.total_num_scheduled_tokens = 0 then return rs
  else return { rs with scheduler_output := some so }

inductive EngineOp where
  | execute_model (so : SchedulerOutput)
  | sample_tokens (grammar_output : Option GrammarOutput)

-- The calls that an engine makes, one after the other.
def step (cfg : RunnerConfig) (sets : SetOrder) (mode : OutOfRange) (model : Model κ H LP)
    (s : Runner T × κ) : EngineOp → Option (Runner T × κ)
  | .execute_model so => do
      let rs ← s.1.execute_model cfg sets so
      return (rs, s.2)
  | .sample_tokens grammar_output => do
      let (_, rs, k) ← sample_tokens cfg mode model grammar_output s.1 s.2
      return (rs, k)

end Runner

end TTXla.VllmTT

import TTXla.VllmTT.ModelRunner

-- The noise rows that are drawn from the generators of the requests.
namespace TTXla.VllmTT

-- The rows that a generator with a seed gives, one for each draw, and those with which the
-- global generator fills the tensors, one for each fill and row.
structure Noise (N : Type) where
  seeded : Int → Nat → N
  global : Nat → Nat → N

-- How many rows each generator has given.
structure Draws where
  fills : Nat
  position : Nat → Nat

namespace Draws

variable {N : Type} (noise : Noise N)

def init : Draws := ⟨0, fun _ => 0⟩

-- `q_cpu[req_idx].exponential_(generator=generator)`.
def draw_row (s : (Nat → N) × Draws) (e : (_ : Nat) × Generator) : (Nat → N) × Draws :=
  let req_idx := e.1
  let generator := e.2
  let position := s.2.position generator.ref
  (Function.update s.1 req_idx (noise.seeded generator.seed position),
    { s.2 with position := Function.update s.2.position generator.ref (position + 1) })

-- The part of `from_input_batch` that draws.
def q_samples (generators : Dict Nat Generator) (d : Draws) : Option (Nat → N) × Draws :=
  if generators.keys.isEmpty then (none, d)
  else
    let filled := (noise.global d.fills, { d with fills := d.fills + 1 })
    let s := generators.entries.foldl (draw_row noise) filled
    (some s.1, s.2)

end Draws

-- The compiled graphs, with a sampler that is given the noise.
structure SeededModel (κ H LP N : Type) where
  forward : κ → ModelInputs → Option (κ × (Nat → Nat → H))
  sample : List H → SamplingMetadata → Option (Nat → N) →
    Option (Nat → Option (List Nat)) → List Token
  gather_logprobs : List H → List Token → List LP

def SeededModel.given {κ H LP N : Type} (model : SeededModel κ H LP N)
    (q_samples : Option (Nat → N)) : Model κ H LP where
  forward := model.forward
  sample picked metadata grammar_bitmask := model.sample picked metadata q_samples grammar_bitmask
  gather_logprobs := model.gather_logprobs

-- The sampler reads the noise at the rows of its own logits.
structure SampledExecution (LP N : Type) where
  execution : Runner.Execution LP
  q_samples : Option (Nat → N)

def SampledExecution.noise {LP N : Type} (e : SampledExecution LP N) : List (Option N) :=
  (List.range e.execution.tokens.length).map fun i => e.q_samples.map fun q => q i

-- The model runner with its generators. The noise rows of the output tokens are recorded
-- beside the output lists.
structure SeededRunner (T κ N : Type) where
  runner : Runner T
  device : κ
  draws : Draws
  noises : OutRef → List (Option N)

namespace SeededRunner

variable {T : Type} [BlockTable T] {κ H LP N : Type}

def init (memory : InputBatch T) (k : κ) : SeededRunner T κ N :=
  ⟨Runner.init memory, k, Draws.init, fun _ => []⟩

def execute_chunk (cfg : RunnerConfig) (mode : OutOfRange) (model : SeededModel κ H LP N)
    (noise : Noise N) (so : SchedulerOutput) (grammar_output : Option GrammarOutput)
    (rs : Runner T) (k : κ) (d : Draws) (start_index : Nat) :
    Option (SampledExecution LP N × Runner T × κ × Draws) := do
  let (q_samples, d) := d.q_samples noise rs.input_batch.generators
  let (e, rs, k) ←
    rs.execute_chunk cfg mode (model.given q_samples) so grammar_output k start_index
  return (⟨e, q_samples⟩, rs, k, d)

def execute_chunks (cfg : RunnerConfig) (mode : OutOfRange) (model : SeededModel κ H LP N)
    (noise : Noise N) (so : SchedulerOutput) (grammar_output : Option GrammarOutput) :
    Nat → Runner T → κ → Draws → Nat →
      Option (List (SampledExecution LP N) × Runner T × κ × Draws)
  | 0, rs, k, d, start_index =>
      if start_index < rs.input_batch.num_reqs then none else some ([], rs, k, d)
  | fuel + 1, rs, k, d, start_index =>
      if start_index < rs.input_batch.num_reqs then do
        let (e, rs, k, d) ←
          execute_chunk cfg mode model noise so grammar_output rs k d start_index
        let (es, rs, k, d) ←
          execute_chunks cfg mode model noise so grammar_output fuel rs k d e.execution.end_index
        return (e :: es, rs, k, d)
      else some ([], rs, k, d)

-- The noise of the tokens that are appended to the output lists.
def record_noise (sampled : List (Option N)) (noises : OutRef → List (Option N))
    (e : Nat × CachedRequestState × Nat) : OutRef → List (Option N) :=
  let ref := e.2.1.output_token_ids
  Function.update noises ref (noises ref ++ [(sampled[e.1]?).join])

def sample_scheduled (cfg : RunnerConfig) (mode : OutOfRange) (model : SeededModel κ H LP N)
    (noise : Noise N) (grammar_output : Option GrammarOutput) (s : SeededRunner T κ N)
    (so : SchedulerOutput) : Option (SeededRunner T κ N) := do
  let rs := { s.runner with scheduler_output := none }
  guard (0 < rs.input_batch.num_reqs)
  let (es, rs, k, d) ← execute_chunks cfg mode model noise so grammar_output
    rs.input_batch.num_reqs rs s.device s.draws 0
  let seq_lens ← (List.range rs.input_batch.num_reqs).mapM (rs.row_seq_len so)
  let (_, rs') ← rs.append_tokens cfg so (es.flatMap fun e => e.execution.tokens)
  let sampling := seq_lens.filter fun e => e.2.1.num_tokens rs.outs ≤ e.2.2
  let noises := sampling.foldl (record_noise (es.flatMap SampledExecution.noise)) s.noises
  return ⟨rs', k, d, noises⟩

def step (cfg : RunnerConfig) (sets : SetOrder) (mode : OutOfRange)
    (model : SeededModel κ H LP N) (noise : Noise N) (s : SeededRunner T κ N) :
    Runner.EngineOp → Option (SeededRunner T κ N)
  | .execute_model so => do
      let rs ← s.runner.execute_model cfg sets so
      return { s with runner := rs }
  | .sample_tokens grammar_output =>
      match s.runner.scheduler_output with
      | none => some s
      | some so => sample_scheduled cfg mode model noise grammar_output s so

end SeededRunner

end TTXla.VllmTT

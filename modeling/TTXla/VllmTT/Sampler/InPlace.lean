import TTXla.Lib.Memory
import TTXla.VllmTT.Sampler
import TTXla.VllmTT.Sampler.GreedyRows
import TTXla.VllmTT.StructuredDecoding

-- The sampler on tensors in memory: which operations work in place, and on which tensor.
namespace TTXla.VllmTT.Sampler.InPlace

open Memory (Prog load new store lift)
open Logit (add sub mul div reciprocal of_rat)

inductive DType where
  | float32
  | bfloat16
  | float16
  | float64
deriving DecidableEq

structure LogitsTensor (L : Type) where
  dtype : DType
  data : BatchLogits (WithBot L)

variable {L : Type}

abbrev Torch (L α : Type) := Prog (LogitsTensor L) α

-- An operation whose result is a tensor of its own.
def out_of_place (f : BatchLogits (WithBot L) → BatchLogits (WithBot L)) (logits : Nat) :
    Torch L Nat := do
  let tensor ← load logits
  new { tensor with data := f tensor.data }

-- An operation with a trailing underscore, or an augmented assignment.
def in_place (f : BatchLogits (WithBot L) → Option (BatchLogits (WithBot L))) (logits : Nat) :
    Torch L Nat := do
  let tensor ← load logits
  let data ← lift (f tensor.data)
  store logits { tensor with data := data }
  return logits

-- `logits.to(torch.float32)`: the tensor itself when it has the type already.
def to_float32 (convert : DType → WithBot L → WithBot L) (logits : Nat) : Torch L Nat := do
  let tensor ← load logits
  if tensor.dtype = .float32 then return logits
  else new ⟨.float32, fun i token => convert tensor.dtype (tensor.data i token)⟩

section Penalties

variable [Logit (WithBot L)]

def repetition_step (logit : WithBot L) (count : Nat) (in_prompt : Bool) (repetition : ℚ) :
    WithBot L :=
  let rep := of_rat repetition
  let penalty_factor := if of_rat 0 < logit then reciprocal rep else rep
  if decide (0 < count) || in_prompt then mul logit penalty_factor else logit

def frequency_step (logit : WithBot L) (count : Nat) (frequency : ℚ) : WithBot L :=
  sub logit (mul (of_rat frequency) (of_rat count))

def presence_step (logit : WithBot L) (count : Nat) (presence : ℚ) : WithBot L :=
  sub logit (mul (of_rat presence) (of_rat (if decide (0 < count) then 1 else 0)))

-- The three steps are the penalties of an entry.
theorem penalise_steps (logit : WithBot L) (count : Nat) (in_prompt : Bool)
    (presence frequency repetition : ℚ) :
    presence_step (frequency_step (repetition_step logit count in_prompt repetition) count
      frequency) count presence =
      penalise logit count in_prompt presence frequency repetition := rfl

-- The repetition penalty selects into a new tensor, from which the others are subtracted.
def apply_penalties (md : SamplingMetadata) (logits : Nat) : Torch L Nat := do
  let output_token_counts ← lift md.output_token_counts
  let prompt_token_mask ← lift md.prompt_token_mask
  let presence_penalties ← lift md.presence_penalties
  let frequency_penalties ← lift md.frequency_penalties
  let repetition_penalties ← lift md.repetition_penalties
  let logits ← out_of_place (fun x i token => repetition_step (x i token)
    (output_token_counts i token) (prompt_token_mask i token) (repetition_penalties i)) logits
  let logits ← in_place (fun x => some fun i token =>
    frequency_step (x i token) (output_token_counts i token) (frequency_penalties i)) logits
  in_place (fun x => some fun i token =>
    presence_step (x i token) (output_token_counts i token) (presence_penalties i)) logits

-- `if not no: logits = f(logits, tensor)`, for the masks and the bias.
def unless_no {α : Type} (no : Bool) (tensor : Option α)
    (f : BatchLogits (WithBot L) → α → BatchLogits (WithBot L)) (logits : Nat) : Torch L Nat :=
  if no then return logits
  else do
    let tensor ← lift tensor
    out_of_place (fun x => f x tensor) logits

end Penalties

section Filters

variable {V : Nat} {R : Type} [Field R] [LinearOrder R] (softmax : Logits V L → Fin V → R)

def row (V : Nat) (x : BatchLogits (WithBot L)) (i : Nat) : Logits V L := fun token => x i token

-- The entries of the batch, from its rows.
def of_rows (rows : List (Logits V L)) (x : BatchLogits (WithBot L)) : BatchLogits (WithBot L) :=
  fun i token =>
    match rows[i]? with
    | some filtered => if h : token < V then filtered ⟨token, h⟩ else x i token
    | none => x i token

def on_rows (B : Nat) (f : Nat → Logits V L → Option (Logits V L))
    (x : BatchLogits (WithBot L)) : Option (BatchLogits (WithBot L)) := do
  let rows ← (List.range B).mapM fun i => f i (row V x i)
  return of_rows rows x

-- `if tensor is not None`.
def when_given {α : Type} (tensor : Option α)
    (f : α → BatchLogits (WithBot L) → Option (BatchLogits (WithBot L))) (logits : Nat) :
    Torch L Nat :=
  match tensor with
  | none => return logits
  | some tensor => in_place (f tensor) logits

def min_p_rows (B : Nat) (min_p : Nat → ℚ) :
    BatchLogits (WithBot L) → Option (BatchLogits (WithBot L)) :=
  on_rows B fun i x => Sampler.apply_min_p softmax x (min_p i)

def top_k_rows (B : Nat) (probs : Nat → Fin V → R) (k : Nat → Int) :
    BatchLogits (WithBot L) → Option (BatchLogits (WithBot L)) :=
  on_rows B fun i x => discard_top_k (probs i) x (some (k i))

def top_p_rows (B : Nat) (probs : Nat → Fin V → R) (p : Nat → ℚ) :
    BatchLogits (WithBot L) → Option (BatchLogits (WithBot L)) :=
  on_rows B fun i x => discard_top_p (probs i) x (some ↑(p i))

-- The probabilities are those of the logits at the entry.
def apply_top_k_top_p (B : Nat) (k : Option (Nat → Int)) (p : Option (Nat → ℚ)) (logits : Nat) :
    Torch L Nat := do
  let tensor ← load logits
  let probs := fun i => softmax (row V tensor.data i)
  let logits ← when_given k (top_k_rows B probs) logits
  when_given p (top_p_rows B probs) logits

end Filters

section Sample

variable {V : Nat} {R : Type} [Field R] [LinearOrder R] (softmax : Logits V L → Fin V → R)
  [Logit (WithBot L)] (B : Nat)

-- What the copies, if any, are made for.
def constrain (md : SamplingMetadata) (logits : Nat) : Torch L Nat := do
  let logits ← unless_no md.no_allowed_token_ids md.allowed_token_ids_mask add_mask logits
  let logits ← unless_no md.no_min_tokens md.min_tokens_mask add_mask logits
  let logits ← unless_no md.no_bad_words md.bad_words_mask apply_bad_words logits
  let logits ← unless_no md.no_logit_bias md.logit_bias_tensor apply_logit_bias logits
  let _ ← lift md.temperature
  if md.no_penalties then return logits else apply_penalties md logits

-- What the logits of the random rows go through, in place.
def scale_and_filter (md : SamplingMetadata) (temperature : Nat → ℚ) (logits : Nat) :
    Torch L Nat := do
  let logits ← in_place (fun x => some (apply_temperature x temperature md.all_random)) logits
  let logits ← when_given md.min_p (min_p_rows softmax B) logits
  apply_top_k_top_p softmax B md.top_k md.top_p logits

-- `draw` stands for the softmax of the filtered logits, the noise and the argmax.
def sample (draw : BatchLogits (WithBot L) → SamplingMetadata → Nat → Option Token)
    (md : SamplingMetadata) (logits : Nat) : Torch L (Nat → Option Token) := do
  let logits ← constrain md logits
  let constrained ← load logits
  let greedy_sampled := greedy_sample V constrained.data
  let temperature ← lift md.temperature
  let logits ← scale_and_filter softmax B md temperature logits
  let filtered ← load logits
  let random_sampled := draw filtered.data md
  return fun i => if temperature i < SAMPLING_EPS then greedy_sampled i else random_sampled i

def sample_from_logits (convert : DType → WithBot L → WithBot L)
    (draw : BatchLogits (WithBot L) → SamplingMetadata → Nat → Option Token)
    (md : SamplingMetadata) (logits : Nat) : Torch L (Nat → Option Token) := do
  if takes_argmax md then
    let tensor ← load logits
    return greedy_sample V tensor.data
  else
    let logits ← to_float32 convert logits
    sample softmax B draw md logits

end Sample

section Step

variable {V : Nat} {R LP : Type} [Field R] [LinearOrder R]
  (softmax : Logits V L → Fin V → R) [Logit (WithBot L)] (B : Nat)

-- `torch.where` on the rows that require structured output.
def structured_decode (V : Nat) (grammar_bitmask : Nat → Option (List Nat))
    (x : BatchLogits (WithBot L)) : BatchLogits (WithBot L) := fun i token =>
  match grammar_bitmask i with
  | some mask => if (Runner.allowed_tokens V mask).getD token false then x i token else ⊥
  | none => x i token

-- `if grammar_output is not None`.
def constrain_grammar (V : Nat) (grammar_bitmask : Option (Nat → Option (List Nat)))
    (logits : Nat) : Torch L Nat :=
  match grammar_bitmask with
  | none => return logits
  | some grammar_bitmask => out_of_place (structured_decode V grammar_bitmask) logits

-- The part of `sample_tokens` after `compute_logits`. The log-probabilities are gathered from
-- the tensor that was sampled from.
def sample_tokens (convert : DType → WithBot L → WithBot L)
    (draw : BatchLogits (WithBot L) → SamplingMetadata → Nat → Option Token)
    (log_softmax : Logits V L → LP) (md : SamplingMetadata)
    (grammar_bitmask : Option (Nat → Option (List Nat))) (logits : Nat) :
    Torch L ((Nat → Option Token) × Option (List LP) × Nat) := do
  let logits ← constrain_grammar V grammar_bitmask logits
  let selected_token_ids ← sample_from_logits softmax B convert draw md logits
  let tensor ← load logits
  let logprobs := if md.logprobs then
      some ((List.range B).map fun i => log_softmax (row V tensor.data i))
    else none
  return (selected_token_ids, logprobs, logits)

end Step

end TTXla.VllmTT.Sampler.InPlace

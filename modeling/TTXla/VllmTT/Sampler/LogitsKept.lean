import TTXla.VllmTT.Sampler.InPlace

-- When the logits are the same after the sampling.
namespace TTXla.VllmTT.Sampler.InPlace

open Memory

variable {L : Type} {memory memory' : List (LogitsTensor L)} {logits logits' : Nat}

section Operations

theorem out_of_place_spec {f : BatchLogits (WithBot L) → BatchLogits (WithBot L)}
    (h : out_of_place f logits memory = some (logits', memory')) :
    ∃ tensor, memory[logits]? = some tensor ∧ logits' = memory.length ∧
      memory' = memory ++ [{ tensor with data := f tensor.data }] := by
  obtain ⟨tensor, _, hload, hnew⟩ := bind_eq_some.mp h
  obtain ⟨hget, rfl⟩ := load_eq_some.mp hload
  cases hnew
  exact ⟨tensor, hget, rfl, rfl⟩

theorem fresh_out_of_place {f : BatchLogits (WithBot L) → BatchLogits (WithBot L)}
    (h : out_of_place f logits memory = some (logits', memory')) :
    Fresh memory logits' memory' := by
  obtain ⟨tensor, -, rfl, rfl⟩ := out_of_place_spec h
  exact fresh_new memory _

theorem in_place_spec {f : BatchLogits (WithBot L) → Option (BatchLogits (WithBot L))}
    (h : in_place f logits memory = some (logits', memory')) :
    logits' = logits ∧ ∃ tensor data, memory[logits]? = some tensor ∧
      f tensor.data = some data ∧ memory' = memory.set logits { tensor with data := data } := by
  obtain ⟨tensor, _, hload, h⟩ := bind_eq_some.mp h
  obtain ⟨hget, rfl⟩ := load_eq_some.mp hload
  obtain ⟨data, _, hlift, h⟩ := bind_eq_some.mp h
  obtain ⟨hdata, rfl⟩ := lift_eq_some.mp hlift
  obtain ⟨_, _, hstore, h⟩ := bind_eq_some.mp h
  obtain ⟨-, rfl⟩ := store_eq_some.mp hstore
  obtain ⟨rfl, rfl⟩ := pure_eq_some.mp h
  exact ⟨rfl, tensor, data, hget, hdata, rfl⟩

theorem fresh_in_place {f : BatchLogits (WithBot L) → Option (BatchLogits (WithBot L))}
    {old : List (LogitsTensor L)} (hold : Fresh old logits memory)
    (h : in_place f logits memory = some (logits', memory')) : Fresh old logits' memory' := by
  obtain ⟨rfl, tensor, data, -, -, rfl⟩ := in_place_spec h
  exact hold.set _

end Operations

-- The tensor goes on as it is, or as a copy that was made because of `copied`.
def Passes (copied : Prop) (memory : List (LogitsTensor L)) (logits : Nat)
    (memory' : List (LogitsTensor L)) (logits' : Nat) : Prop :=
  (¬copied ∧ logits' = logits ∧ memory' = memory) ∨ (copied ∧ Fresh memory logits' memory')

theorem Passes.trans {p q : Prop} {mid : List (LogitsTensor L)} {copy : Nat}
    (h : Passes p memory logits mid copy) (h' : Passes q mid copy memory' logits') :
    Passes (p ∨ q) memory logits memory' logits' := by
  obtain ⟨hp, rfl, rfl⟩ | ⟨hp, hfresh⟩ := h
  · obtain ⟨hq, rfl, rfl⟩ | ⟨hq, hfresh⟩ := h'
    · exact .inl ⟨not_or.mpr ⟨hp, hq⟩, rfl, rfl⟩
    · exact .inr ⟨.inr hq, hfresh⟩
  · obtain ⟨hq, rfl, rfl⟩ | ⟨hq, hfresh'⟩ := h'
    · exact .inr ⟨.inl hp, hfresh⟩
    · exact .inr ⟨.inl hp, hfresh.trans hfresh'⟩

section Constrain

theorem unless_no_passes {α : Type} {no : Bool} {tensor : Option α}
    {f : BatchLogits (WithBot L) → α → BatchLogits (WithBot L)}
    (h : unless_no no tensor f logits memory = some (logits', memory')) :
    Passes (no = false) memory logits memory' logits' := by
  unfold unless_no at h
  cases no with
  | true =>
      obtain ⟨rfl, rfl⟩ := pure_eq_some.mp h
      exact .inl ⟨Bool.noConfusion, rfl, rfl⟩
  | false =>
      obtain ⟨x, _, hlift, h⟩ := bind_eq_some.mp h
      obtain ⟨-, rfl⟩ := lift_eq_some.mp hlift
      exact .inr ⟨rfl, fresh_out_of_place h⟩

variable [Logit (WithBot L)]

theorem fresh_apply_penalties {md : SamplingMetadata}
    (h : apply_penalties md logits memory = some (logits', memory')) :
    Fresh memory logits' memory' := by
  obtain ⟨_, _, hlift, h⟩ := bind_eq_some.mp h
  obtain ⟨-, rfl⟩ := lift_eq_some.mp hlift
  obtain ⟨_, _, hlift, h⟩ := bind_eq_some.mp h
  obtain ⟨-, rfl⟩ := lift_eq_some.mp hlift
  obtain ⟨_, _, hlift, h⟩ := bind_eq_some.mp h
  obtain ⟨-, rfl⟩ := lift_eq_some.mp hlift
  obtain ⟨_, _, hlift, h⟩ := bind_eq_some.mp h
  obtain ⟨-, rfl⟩ := lift_eq_some.mp hlift
  obtain ⟨_, _, hlift, h⟩ := bind_eq_some.mp h
  obtain ⟨-, rfl⟩ := lift_eq_some.mp hlift
  obtain ⟨_, _, hrepetition, h⟩ := bind_eq_some.mp h
  obtain ⟨_, _, hfrequency, hpresence⟩ := bind_eq_some.mp h
  exact fresh_in_place (fresh_in_place (fresh_out_of_place hrepetition) hfrequency) hpresence

-- Some mask, bias or penalty is there, and the sum or the selection is a tensor of its own.
def Copies (md : SamplingMetadata) : Prop :=
  (((md.no_allowed_token_ids = false ∨ md.no_min_tokens = false) ∨ md.no_bad_words = false) ∨
    md.no_logit_bias = false) ∨ md.no_penalties = false

theorem constrain_passes {md : SamplingMetadata}
    (h : constrain md logits memory = some (logits', memory')) :
    Passes (Copies md) memory logits memory' logits' := by
  obtain ⟨_, _, hallowed, h⟩ := bind_eq_some.mp h
  obtain ⟨_, _, hmin_tokens, h⟩ := bind_eq_some.mp h
  obtain ⟨_, _, hbad_words, h⟩ := bind_eq_some.mp h
  obtain ⟨_, _, hbias, h⟩ := bind_eq_some.mp h
  obtain ⟨_, _, hlift, h⟩ := bind_eq_some.mp h
  obtain ⟨-, rfl⟩ := lift_eq_some.mp hlift
  have hmasks := (((unless_no_passes hallowed).trans (unless_no_passes hmin_tokens)).trans
    (unless_no_passes hbad_words)).trans (unless_no_passes hbias)
  refine hmasks.trans ?_
  cases hno : md.no_penalties with
  | true =>
      rw [hno] at h
      obtain ⟨rfl, rfl⟩ := pure_eq_some.mp h
      exact .inl ⟨Bool.noConfusion, rfl, rfl⟩
  | false =>
      rw [hno] at h
      exact .inr ⟨rfl, fresh_apply_penalties h⟩

end Constrain

-- Where the tensor was, there is one with other data.
def written (memory : List (LogitsTensor L)) (logits : Nat) (tensor : LogitsTensor L)
    (x : BatchLogits (WithBot L)) : List (LogitsTensor L) :=
  memory.set logits { tensor with data := x }

section Written

variable {tensor : LogitsTensor L} (hget : memory[logits]? = some tensor)
include hget

theorem getElem?_written (x : BatchLogits (WithBot L)) :
    (written memory logits tensor x)[logits]? = some { tensor with data := x } := by
  obtain ⟨hlt, -⟩ := List.getElem?_eq_some_iff.mp hget
  exact List.getElem?_set_self hlt

theorem written_self : written memory logits tensor tensor.data = memory := by
  obtain ⟨hlt, rfl⟩ := List.getElem?_eq_some_iff.mp hget
  exact List.set_getElem_self hlt

theorem in_place_written {f : BatchLogits (WithBot L) → Option (BatchLogits (WithBot L))}
    {x : BatchLogits (WithBot L)}
    (h : in_place f logits (written memory logits tensor x) = some (logits', memory')) :
    logits' = logits ∧ ∃ data, f x = some data ∧
      memory' = written memory logits tensor data := by
  obtain ⟨rfl, written_tensor, data, hwritten, hdata, rfl⟩ := in_place_spec h
  rw [getElem?_written hget] at hwritten
  obtain rfl := Option.some.inj hwritten
  exact ⟨rfl, data, hdata, List.set_set ..⟩

-- What an optional filter makes of the data.
omit hget in
def given {α : Type} (tensor : Option α)
    (f : α → BatchLogits (WithBot L) → Option (BatchLogits (WithBot L)))
    (x : BatchLogits (WithBot L)) : Option (BatchLogits (WithBot L)) :=
  match tensor with
  | none => some x
  | some tensor => f tensor x

theorem when_given_written {α : Type} {argument : Option α}
    {f : α → BatchLogits (WithBot L) → Option (BatchLogits (WithBot L))}
    {x : BatchLogits (WithBot L)}
    (h : when_given argument f logits (written memory logits tensor x) =
      some (logits', memory')) :
    logits' = logits ∧ ∃ data, given argument f x = some data ∧
      memory' = written memory logits tensor data := by
  cases argument with
  | none =>
      obtain ⟨rfl, rfl⟩ := pure_eq_some.mp h
      exact ⟨rfl, x, rfl, rfl⟩
  | some a => exact in_place_written hget h

end Written

section Filters

variable {V : Nat} {R : Type} [Field R] [LinearOrder R] (softmax : Logits V L → Fin V → R)
  [Logit (WithBot L)] (B : Nat)

-- The logits of a batch after the temperature and the filters.
def scaled_and_filtered (md : SamplingMetadata) (temperature : Nat → ℚ)
    (x : BatchLogits (WithBot L)) : Option (BatchLogits (WithBot L)) := do
  let x := apply_temperature x temperature md.all_random
  let x ← given md.min_p (min_p_rows softmax B) x
  let probs := fun i => softmax (row V x i)
  let x ← given md.top_k (top_k_rows B probs) x
  given md.top_p (top_p_rows B probs) x

theorem scale_and_filter_spec {md : SamplingMetadata} {temperature : Nat → ℚ}
    {tensor : LogitsTensor L} (hget : memory[logits]? = some tensor)
    (h : scale_and_filter softmax B md temperature logits memory = some (logits', memory')) :
    logits' = logits ∧ ∃ data,
      scaled_and_filtered softmax B md temperature tensor.data = some data ∧
        memory' = written memory logits tensor data := by
  obtain ⟨_, _, htemperature, h⟩ := bind_eq_some.mp h
  rw [← written_self hget] at htemperature
  obtain ⟨rfl, x, hx, rfl⟩ := in_place_written hget htemperature
  cases hx
  obtain ⟨_, _, hmin_p, h⟩ := bind_eq_some.mp h
  obtain ⟨rfl, y, hy, rfl⟩ := when_given_written hget hmin_p
  obtain ⟨_, _, hload, h⟩ := bind_eq_some.mp h
  obtain ⟨hread, rfl⟩ := load_eq_some.mp hload
  rw [getElem?_written hget] at hread
  obtain rfl := Option.some.inj hread
  obtain ⟨_, _, htop_k, htop_p⟩ := bind_eq_some.mp h
  obtain ⟨rfl, z, hz, rfl⟩ := when_given_written hget htop_k
  obtain ⟨rfl, data, hdata, rfl⟩ := when_given_written hget htop_p
  refine ⟨rfl, data, ?_, rfl⟩
  unfold scaled_and_filtered
  simp only [hy, Option.bind_eq_bind, Option.bind_some, hz, hdata]

end Filters

section Sampling

variable {V : Nat} {R LP : Type} [Field R] [LinearOrder R] {softmax : Logits V L → Fin V → R}
  [Logit (WithBot L)] {B : Nat} {convert : DType → WithBot L → WithBot L}
  {draw : BatchLogits (WithBot L) → SamplingMetadata → Nat → Option Token}
  {log_softmax : Logits V L → LP} {md : SamplingMetadata} {tensor : LogitsTensor L}

-- The sampler works on another tensor, or only reads.
def WorksOnCopy (md : SamplingMetadata) (tensor : LogitsTensor L) : Prop :=
  takes_argmax md = true ∨ tensor.dtype ≠ .float32 ∨ Copies md

omit [Logit (WithBot L)] in
theorem to_float32_passes (hget : memory[logits]? = some tensor)
    (h : to_float32 convert logits memory = some (logits', memory')) :
    Passes (tensor.dtype ≠ .float32) memory logits memory' logits' := by
  obtain ⟨_, _, hload, h⟩ := bind_eq_some.mp h
  obtain ⟨hread, rfl⟩ := load_eq_some.mp hload
  obtain rfl := Option.some.inj (hget.symm.trans hread)
  by_cases hdtype : tensor.dtype = .float32
  · rw [if_pos hdtype] at h
    obtain ⟨rfl, rfl⟩ := pure_eq_some.mp h
    exact .inl ⟨not_not.mpr hdtype, rfl, rfl⟩
  · rw [if_neg hdtype] at h
    cases h
    exact .inr ⟨hdtype, fresh_new memory _⟩

-- The tensor that the sampler works on is a copy, or its data are replaced.
theorem sample_spec {tokens : Nat → Option Token} {copied : Prop}
    {mid : List (LogitsTensor L)} {copy : Nat} (hget : memory[logits]? = some tensor)
    (hpasses : Passes copied memory logits mid copy)
    (h : sample softmax B draw md copy mid = some (tokens, memory')) :
    ((copied ∨ Copies md) ∧ memory <+: memory') ∨
      ¬(copied ∨ Copies md) ∧ ∃ temperature data, md.temperature = some temperature ∧
        scaled_and_filtered softmax B md temperature tensor.data = some data ∧
          memory' = written memory logits tensor data := by
  obtain ⟨target, _, hconstrain, h⟩ := bind_eq_some.mp h
  have hpasses := hpasses.trans (constrain_passes hconstrain)
  obtain ⟨constrained, _, hload, h⟩ := bind_eq_some.mp h
  obtain ⟨hread, rfl⟩ := load_eq_some.mp hload
  obtain ⟨temperature, _, hlift, h⟩ := bind_eq_some.mp h
  obtain ⟨htemperature, rfl⟩ := lift_eq_some.mp hlift
  obtain ⟨_, _, hscale, h⟩ := bind_eq_some.mp h
  obtain ⟨rfl, data, hdata, rfl⟩ := scale_and_filter_spec softmax B hread hscale
  obtain ⟨_, _, hload, h⟩ := bind_eq_some.mp h
  obtain ⟨-, rfl⟩ := load_eq_some.mp hload
  obtain ⟨-, rfl⟩ := pure_eq_some.mp h
  obtain ⟨hnot, rfl, rfl⟩ | ⟨hcopied, hfresh⟩ := hpasses
  · obtain rfl := Option.some.inj (hget.symm.trans hread)
    exact .inr ⟨hnot, temperature, data, htemperature, hdata, rfl⟩
  · exact .inl ⟨hcopied, (hfresh.set _).grows⟩

theorem sample_from_logits_spec {tokens : Nat → Option Token}
    (hget : memory[logits]? = some tensor)
    (h : sample_from_logits softmax B convert draw md logits memory = some (tokens, memory')) :
    (WorksOnCopy md tensor ∧ memory <+: memory') ∨
      ¬WorksOnCopy md tensor ∧ ∃ temperature data, md.temperature = some temperature ∧
        scaled_and_filtered softmax B md temperature tensor.data = some data ∧
          memory' = written memory logits tensor data := by
  unfold sample_from_logits at h
  by_cases hargmax : takes_argmax md = true
  · rw [if_pos hargmax] at h
    obtain ⟨_, _, hload, h⟩ := bind_eq_some.mp h
    obtain ⟨-, rfl⟩ := load_eq_some.mp hload
    obtain ⟨-, rfl⟩ := pure_eq_some.mp h
    exact .inl ⟨.inl hargmax, List.prefix_rfl⟩
  · rw [if_neg hargmax] at h
    obtain ⟨copy, mid, hcopy, h⟩ := bind_eq_some.mp h
    have hsample := sample_spec hget (to_float32_passes hget hcopy) h
    unfold WorksOnCopy
    rwa [or_iff_right hargmax]

-- Two tensors of the batch's shape.
def SameOn (B V : Nat) (x y : BatchLogits (WithBot L)) : Prop :=
  ∀ i < B, ∀ token < V, x i token = y i token

-- The logits of the step after the grammar mask.
def constrained (V : Nat) (grammar_bitmask : Option (Nat → Option (List Nat)))
    (tensor : LogitsTensor L) : LogitsTensor L :=
  match grammar_bitmask with
  | none => tensor
  | some grammar_bitmask => { tensor with data := structured_decode V grammar_bitmask tensor.data }

-- The tensor that the log-probabilities are gathered from has the constrained logits, and the
-- log-probabilities are theirs.
structure Undisturbed (B V : Nat) (log_softmax : Logits V L → LP) (before : LogitsTensor L)
    (memory' : List (LogitsTensor L)) (logprobs : Option (List LP)) (logits' : Nat) : Prop where
  tensor : ∃ after, memory'[logits']? = some after ∧ after.dtype = before.dtype ∧
    SameOn B V after.data before.data
  logprobs : ∀ lps, logprobs = some lps →
    lps = (List.range B).map fun i => log_softmax (row V before.data i)

-- The sampler works on a copy, or the temperature and the filters leave the batch as it is.
def Spared (softmax : Logits V L → Fin V → R) (B : Nat) (md : SamplingMetadata)
    (tensor : LogitsTensor L) : Prop :=
  WorksOnCopy md tensor ∨ ∀ temperature data, md.temperature = some temperature →
    scaled_and_filtered softmax B md temperature tensor.data = some data →
      SameOn B V data tensor.data

theorem sample_from_logits_kept_iff {tokens : Nat → Option Token}
    (hget : memory[logits]? = some tensor)
    (h : sample_from_logits softmax B convert draw md logits memory = some (tokens, memory')) :
    ∃ after, memory'[logits]? = some after ∧ after.dtype = tensor.dtype ∧
      (SameOn B V after.data tensor.data ↔ Spared softmax B md tensor) := by
  obtain ⟨hcopy, hgrows⟩ | ⟨hcopy, temperature, data, htemperature, hdata, rfl⟩ :=
    sample_from_logits_spec hget h
  · obtain ⟨hlt, -⟩ := List.getElem?_eq_some_iff.mp hget
    refine ⟨tensor, by rw [prefix_getElem? hgrows hlt, hget], rfl, ?_⟩
    exact iff_of_true (fun _ _ _ _ => rfl) (.inl hcopy)
  · refine ⟨_, getElem?_written hget data, rfl, fun hsame => .inr ?_, ?_⟩
    · intro temperature' data' htemperature' hdata'
      obtain rfl := Option.some.inj (htemperature.symm.trans htemperature')
      obtain rfl := Option.some.inj (hdata.symm.trans hdata')
      exact hsame
    · rintro (hspared | hspared)
      · exact absurd hspared hcopy
      · exact hspared temperature data htemperature hdata

omit [Logit (WithBot L)] in
theorem row_congr {x y : BatchLogits (WithBot L)} (h : SameOn B V x y) {i : Nat} (hi : i < B) :
    row V x i = row V y i :=
  funext fun token => h i hi token token.isLt

-- Without filters, a temperature that divides nothing away spares the logits.
theorem spared_of_temperature_one {temperature : Nat → ℚ}
    (htemperature : md.temperature = some temperature) (hone : ∀ i < B, temperature i = 1)
    (hdiv : ∀ x : WithBot L, Logit.div x (Logit.of_rat 1) = x) (hmin_p : md.min_p = none)
    (htop_k : md.top_k = none) (htop_p : md.top_p = none) : Spared softmax B md tensor := by
  refine .inr fun temperature' data htemperature' hdata i hi token _ => ?_
  obtain rfl := Option.some.inj (htemperature.symm.trans htemperature')
  unfold scaled_and_filtered at hdata
  rw [hmin_p, htop_k, htop_p] at hdata
  cases hdata
  unfold apply_temperature
  dsimp only
  rw [hone i hi, ite_self, hdiv]

end Sampling

section Example

-- One random row of two logits, with temperature 2.
def two_logits (dtype : DType) : LogitsTensor ℚ where
  dtype := dtype
  data := fun _ token => if token = 0 then ↑(1 : ℚ) else ↑(2 : ℚ)

def random_row : SamplingMetadata where
  temperature := some fun _ => 2
  all_greedy := false
  logprobs := true

-- Rows with finite logits that are equally likely.
def uniform : Logits 2 ℚ → Fin 2 → ℚ := fun _ _ => 1 / 2

end Example

end TTXla.VllmTT.Sampler.InPlace

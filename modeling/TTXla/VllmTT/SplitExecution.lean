import TTXla.VllmTT.ModelRunner.Split
import TTXla.VllmTT.PoolingRunner

-- Splitting a step into several executions, in both model runners.
namespace TTXla.VllmTT

namespace Pooling

variable {T : Type} {H P : Type}

-- What the model and the pooler receive for a request.
structure RowInputs where
  input_ids : List Token
  position_ids : List Nat
  seq_len : Nat

-- A fused input holds the tokens of a request after those of the requests before it.
def rowInputs (cfg : PoolingConfig) (inp : PoolingInputs) (i : Nat) : RowInputs :=
  let counts := inp.num_scheduled_tokens_per_req
  let row := if cfg.batch_size = 1 then 0 else i
  let offset := if cfg.batch_size = 1 then (counts.take i).sum else 0
  { input_ids := (List.range (counts.getD i 0)).map fun j => inp.input_ids row (offset + j)
    position_ids := (List.range (counts.getD i 0)).map fun j => inp.position_ids row (offset + j)
    seq_len := inp.seq_lens i }

-- Where the loop of a step starts its executions.
inductive InLoop (cfg : PoolingConfig) (model : PoolingModel H P) (b : InputBatch T)
    (so : SchedulerOutput) : Nat → Prop
  | start : InLoop cfg model b so 0
  | next {start_index end_index : Nat} {output : List (Option P)}
      (h : InLoop cfg model b so start_index)
      (hstep : execute_chunk cfg model b so start_index = some (output, end_index)) :
      InLoop cfg model b so end_index

-- Each request is given what one execution of the whole batch gives it, and its output is
-- returned at its row.
structure SplitAgrees (cfg : PoolingConfig) (model : PoolingModel H P) (b : InputBatch T)
    (so : SchedulerOutput) (pooler_output : List (Option P)) : Prop where
  inputs : ∃ inp, prepare_inputs_upto cfg List.length b so 0 = some inp ∧
    ∀ start_index inp', InLoop cfg model b so start_index →
      prepare_inputs cfg b so start_index = some inp' →
      ∀ i, start_index ≤ i → i < inp'.end_index →
        rowInputs cfg inp' (i - start_index) = rowInputs cfg inp i
  once : ∀ i < b.num_reqs, ∃! start_index, ∃ output end_index,
    InLoop cfg model b so start_index ∧
    execute_chunk cfg model b so start_index = some (output, end_index) ∧
    start_index ≤ i ∧ i < end_index
  length : pooler_output.length = b.num_reqs
  results : ∀ start_index output end_index, InLoop cfg model b so start_index →
    execute_chunk cfg model b so start_index = some (output, end_index) →
    ∀ i : Nat, start_index ≤ i → i < end_index → ∃ entry,
      output[i - start_index]? = some entry ∧ pooler_output[i]? = some entry

variable {cfg : PoolingConfig} {model : PoolingModel H P} {b : InputBatch T}
  {so : SchedulerOutput} {counts : List Nat}

theorem prepare_inputs_upto_eq {limit : List Nat → Nat}
    (hc : Runner.scheduled_counts b so 0 = some counts) (hlimit : counts.length ≤ limit counts) :
    prepare_inputs_upto cfg limit b so 0 = prepare_inputs_upto cfg List.length b so 0 := by
  unfold prepare_inputs_upto
  simp only [hc, Option.bind_eq_bind, Option.bind_some, List.take_of_length_le hlimit,
    List.take_length, Nat.not_lt.mpr hlimit, Nat.lt_irrefl, ite_false]

theorem prepare_inputs_counts {limit : List Nat → Nat} {start_index : Nat} {inp : PoolingInputs}
    (h : prepare_inputs_upto cfg limit b so start_index = some inp) :
    start_index < b.num_reqs ∧ ∃ all_counts,
      Runner.scheduled_counts b so start_index = some all_counts ∧
      inp.num_scheduled_tokens_per_req = all_counts.take (limit all_counts) ∧
      0 < inp.num_scheduled_tokens_per_req.length ∧
      inp.num_scheduled_tokens_per_req.length ≤ cfg.max_num_tokens ∧
      inp.end_index = start_index + inp.num_scheduled_tokens_per_req.length := by
  unfold prepare_inputs_upto at h
  simp only [Option.bind_eq_bind, Option.bind_eq_some_iff, Options.guard_eq_some] at h
  obtain ⟨-, -, -, -, -, hlt, all_counts, hall, m, hm, -, -, p, -, -, hfit, -, -, h⟩ := h
  have hlen := (Runner.getElem?_scheduled_counts hall).1
  have hpos := List.length_pos_of_mem (List.max?_eq_some_iff.mp hm).1
  have hend : (if limit all_counts < all_counts.length then start_index + limit all_counts
      else b.num_reqs) = start_index + (all_counts.take (limit all_counts)).length := by
    rw [List.length_take]
    split <;> omega
  refine ⟨hlt, all_counts, hall, ?_⟩
  split at h
  · simp only [fused_inputs, Option.bind_eq_bind, Option.bind_eq_some_iff] at h
    obtain ⟨-, -, h⟩ := h
    cases h
    exact ⟨rfl, hpos, hfit, hend⟩
  · cases h
    exact ⟨rfl, hpos, hfit, hend⟩

theorem length_slice {α : Type} (xs : List α) (start stop : Nat) (h : stop ≤ xs.length) :
    (slice xs start stop).length = stop - start := by
  unfold slice
  rw [List.length_drop, List.length_take, Nat.min_eq_left h]

-- An execution has at most one output for each of its requests; the first one has exactly
-- one, as the slice of the sequence lengths then lies within the buffer.
theorem execute_chunk_spec (hm : model.Lawful) {start_index end_index : Nat}
    {output : List (Option P)}
    (h : execute_chunk cfg model b so start_index = some (output, end_index)) :
    start_index < end_index ∧ end_index ≤ b.num_reqs ∧
      output.length ≤ end_index - start_index ∧
      (start_index = 0 → output.length = end_index) ∧
      ∃ inp, prepare_inputs cfg b so start_index = some inp ∧ inp.end_index = end_index := by
  obtain ⟨inp, hprep, h⟩ := Option.bind_eq_some_iff.mp h
  obtain ⟨metadata, hmd, h⟩ := Option.bind_eq_some_iff.mp h
  cases h
  obtain ⟨hlt, all_counts, hall, hcounts, hpos, hfit, hend⟩ := prepare_inputs_counts hprep
  have hlen := (Runner.getElem?_scheduled_counts hall).1
  have hle : inp.num_scheduled_tokens_per_req.length ≤ all_counts.length := by
    rw [hcounts, List.length_take]
    omega
  obtain ⟨params, -, hmd⟩ := Option.bind_eq_some_iff.mp hmd
  cases hmd
  have hprompt : (slice ((List.range b.num_reqs).map b.num_prompt_tokens) start_index
      inp.end_index).length = inp.end_index - start_index := by
    apply length_slice
    rw [List.length_map, List.length_range]
    omega
  refine ⟨by omega, by omega, ?_, fun h0 => ?_, inp, hprep, rfl⟩
  · rw [List.length_zipWith, List.length_zip, hprompt, hm]
    omega
  · have hseq : (slice ((List.range cfg.max_num_tokens).map inp.seq_lens) start_index
        inp.end_index).length = inp.end_index - start_index := by
      apply length_slice
      rw [List.length_map, List.length_range]
      omega
    rw [List.length_zipWith, List.length_zip, hprompt, hseq, hm]
    dsimp only
    omega

theorem execute_chunks_of_le (fuel : Nat) {start_index : Nat} (pooler_output : Option (List (Option P)))
    (h : b.num_reqs ≤ start_index) :
    execute_chunks cfg model b so fuel start_index pooler_output = pooler_output := by
  cases fuel with
  | zero => rw [execute_chunks, if_neg (by omega)]
  | succ fuel => rw [execute_chunks, if_neg (by omega)]

-- What is returned are the outputs of the last execution.
theorem execute_chunks_length (hm : model.Lawful) (fuel : Nat) {start_index : Nat}
    {before : Option (List (Option P))} {pooler_output : List (Option P)}
    (hlt : start_index < b.num_reqs)
    (h : execute_chunks cfg model b so fuel start_index before = some pooler_output) :
    pooler_output.length ≤ b.num_reqs - start_index := by
  induction fuel generalizing start_index before with
  | zero =>
      rw [execute_chunks, if_pos hlt] at h
      cases h
  | succ fuel ih =>
      rw [execute_chunks, if_pos hlt] at h
      obtain ⟨⟨output, end_index⟩, hstep, h⟩ := Option.bind_eq_some_iff.mp h
      obtain ⟨h1, h2, h3, -⟩ := execute_chunk_spec hm hstep
      dsimp only at h
      by_cases hend : end_index < b.num_reqs
      · have := ih hend h
        omega
      · rw [execute_chunks_of_le _ _ (by omega)] at h
        cases h
        omega

theorem InLoop.single (hm : model.Lawful) (hc : Runner.scheduled_counts b so 0 = some counts)
    (hle : counts.length ≤ cfg.num_reqs_limit counts) {start_index : Nat}
    (h : InLoop cfg model b so start_index) : start_index = 0 ∨ start_index = b.num_reqs := by
  induction h with
  | start => exact Or.inl rfl
  | next h hstep ih =>
      obtain ⟨h1, h2, -, -, inp, hprep, hend⟩ := execute_chunk_spec hm hstep
      obtain rfl : _ = 0 := ih.resolve_right (by omega)
      obtain ⟨-, all_counts, hall, hcounts, -, -, he⟩ := prepare_inputs_counts hprep
      obtain rfl : counts = all_counts := Option.some.inj (hc.symm.trans hall)
      have hlen := (Runner.getElem?_scheduled_counts hall).1
      rw [hcounts, List.length_take] at he
      right
      omega

-- The outputs are those of the whole batch exactly when one execution takes all of it.
theorem splitAgrees_iff (hm : model.Lawful) {pooler_output : List (Option P)}
    (hc : Runner.scheduled_counts b so 0 = some counts)
    (h : execute_model cfg model b so = some pooler_output) :
    SplitAgrees cfg model b so pooler_output ↔ counts.length ≤ cfg.num_reqs_limit counts := by
  have hlen := (Runner.getElem?_scheduled_counts hc).1
  unfold execute_model at h
  obtain ⟨fuel, hfuel⟩ : ∃ fuel, b.num_reqs = fuel + 1 := by
    cases hn : b.num_reqs with
    | zero =>
        rw [execute_chunks_of_le _ _ (by omega)] at h
        cases h
    | succ fuel => exact ⟨fuel, rfl⟩
  have hpos : 0 < b.num_reqs := by omega
  rw [hfuel, execute_chunks, if_pos hpos] at h
  obtain ⟨⟨output, end_index⟩, hstep, h⟩ := Option.bind_eq_some_iff.mp h
  dsimp only at h
  obtain ⟨h1, h2, h3, h4, inp, hprep, hend⟩ := execute_chunk_spec hm hstep
  obtain ⟨-, all_counts, hall, hcounts, -, -, he⟩ := prepare_inputs_counts hprep
  obtain rfl : counts = all_counts := Option.some.inj (hc.symm.trans hall)
  rw [hcounts, List.length_take] at he
  constructor
  · intro hsplit
    by_contra hlt
    have hrest := execute_chunks_length hm fuel (by omega) h
    have := hsplit.length
    omega
  · intro hle
    have hall : end_index = b.num_reqs := by omega
    rw [execute_chunks_of_le _ _ (by omega)] at h
    cases h
    have hzero : ∀ start_index inp', InLoop cfg model b so start_index →
        prepare_inputs cfg b so start_index = some inp' → start_index = 0 := by
      intro start_index inp' hloop hprep'
      have hlt := (prepare_inputs_counts hprep').1
      exact (hloop.single hm hc hle).resolve_right (by omega)
    refine ⟨⟨inp, ?_, ?_⟩, fun i hi => ⟨0, ?_, ?_⟩, by rw [h4 rfl, hall], ?_⟩
    · rw [← prepare_inputs_upto_eq hc hle]
      exact hprep
    · intro start_index inp' hloop hprep' i hlo hhi
      obtain rfl := hzero start_index inp' hloop hprep'
      rw [hprep] at hprep'
      cases hprep'
      rw [Nat.sub_zero]
    · exact ⟨pooler_output, end_index, .start, hstep, Nat.zero_le i, by omega⟩
    · rintro start_index ⟨output', end', hloop, hstep', -⟩
      obtain ⟨-, -, -, -, inp', hprep', -⟩ := execute_chunk_spec hm hstep'
      exact hzero start_index inp' hloop hprep'
    · intro start_index output' end' hloop hstep' i hlo hhi
      obtain ⟨-, -, -, -, inp', hprep', -⟩ := execute_chunk_spec hm hstep'
      obtain rfl := hzero start_index inp' hloop hprep'
      rw [hstep] at hstep'
      cases hstep'
      have hi : i < pooler_output.length := by rw [h4 rfl]; exact hhi
      exact ⟨pooler_output[i], List.getElem?_eq_getElem hi, List.getElem?_eq_getElem hi⟩

end Pooling

section Split

variable {T : Type} [BlockTable T] {κ H LP H' P : Type}

end Split

section Example

open Runner

theorem constant_lawful : constant.Lawful where
  sample_length := fun _ _ _ => List.length_map _
  gather_length := fun _ _ => rfl

-- A pooler that has no output for any request.
def silent : PoolingModel Unit Unit where
  forward := fun _ _ _ => ()
  pooler := fun _ metadata => metadata.num_scheduled_tokens.map fun _ => none

theorem silent_lawful : silent.Lawful := fun _ _ => List.length_map _

def splitStep : ModelRunnerOutput Unit × Runner DenseTable × Unit :=
  (sample_scheduled longContext .raise constant none pendingSplit.1 () firstStep).get (by decide)

theorem splitStep_eq :
    sample_scheduled longContext .raise constant none pendingSplit.1 () firstStep =
      some (splitStep.1, splitStep.2.1, splitStep.2.2) := by
  rw [Prod.mk.eta, splitStep, Option.some_get]

def singleStep : ModelRunnerOutput Unit × Runner DenseTable × Unit :=
  (sample_scheduled twoRows .raise constant none oneStep.1 () onePrompt).get (by decide)

theorem singleStep_eq :
    sample_scheduled twoRows .raise constant none oneStep.1 () onePrompt =
      some (singleStep.1, singleStep.2.1, singleStep.2.2) := by
  rw [Prod.mk.eta, singleStep, Option.some_get]

end Example

end TTXla.VllmTT

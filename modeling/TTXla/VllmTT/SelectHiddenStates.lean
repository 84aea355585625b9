import TTXla.VllmTT.PrepareInputs.Lemmas
import TTXla.VllmTT.UpdateStates.Theorems

-- Which hidden state each row of the batch is sampled from.
namespace TTXla.VllmTT

-- An index past the end of a tensor: torch raises, a compiled gather clamps it.
inductive OutOfRange where
  | raise
  | clamp
  deriving DecidableEq

-- An index into an axis of `len` entries; a negative one counts from the end.
def tensorIndex (mode : OutOfRange) (len : Nat) (i : Int) : Option Nat :=
  let i := if i < 0 then i + len else i
  if 0 ≤ i ∧ i < len then some i.toNat
  else
    match mode with
    | .raise => none
    | .clamp => some (if i < 0 then 0 else len - 1)

-- `hidden_states[arange(n), indices_do_sample, :]`.
def select_hidden_states {H : Type} (mode : OutOfRange) (hidden_states : Nat → Nat → H)
    (padded_len : Nat) (indices_do_sample : List Int) : Option (List H) :=
  (List.range indices_do_sample.length).mapM fun i =>
    (tensorIndex mode padded_len (indices_do_sample.getD i 0)).map (hidden_states i)

-- Every row with scheduled tokens is sampled from its own last token.
def PicksOwn (mode : OutOfRange) (inp : ModelInputs) (counts : List Nat) : Prop :=
  ∀ (H : Type) (hidden_states : Nat → Nat → H), ∃ picked,
    select_hidden_states mode hidden_states inp.padded_len inp.logits_indices = some picked ∧
      ∀ i n, counts[i]? = some n → 0 < n → picked[i]? = some (hidden_states i (n - 1))

theorem tensorIndex_of_lt (mode : OutOfRange) {len : Nat} {i : Int} (h0 : 0 ≤ i)
    (hi : i < len) : tensorIndex mode len i = some i.toNat := by
  simp [tensorIndex, not_lt.mpr h0, h0, hi]

theorem tensorIndex_clamp_of_le {len : Nat} {i : Int} (h0 : 0 ≤ i) (hi : (len : Int) ≤ i) :
    tensorIndex .clamp len i = some (len - 1) := by
  simp [tensorIndex, not_lt.mpr h0, h0, not_lt.mpr hi]

theorem tensorIndex_clamp_isSome (len : Nat) (i : Int) : (tensorIndex .clamp len i).isSome := by
  simp only [tensorIndex]
  generalize (if i < 0 then i + (len : Int) else i) = j
  by_cases h : 0 ≤ j ∧ j < len <;> simp [h]

theorem tensorIndex_raise_of_le {len : Nat} {i : Int} (h0 : 0 ≤ i) (hi : (len : Int) ≤ i) :
    tensorIndex .raise len i = none := by
  simp [tensorIndex, not_lt.mpr h0, h0, not_lt.mpr hi]

theorem tensorIndex_neg_one (mode : OutOfRange) {len : Nat} (hlen : 0 < len) :
    (tensorIndex mode len (-1)).isSome := by
  have h : 0 ≤ (-1 : Int) + len ∧ (-1 : Int) + len < len := by omega
  simp [tensorIndex, h]

theorem select_hidden_states_eq {H : Type} {mode : OutOfRange} {hidden_states : Nat → Nat → H}
    {padded_len : Nat} {indices : List Int} {picked : List H}
    (h : select_hidden_states mode hidden_states padded_len indices = some picked) {i : Nat}
    (hi : i < indices.length) :
    picked[i]? = (tensorIndex mode padded_len indices[i]).map (hidden_states i) := by
  have hg := (Options.getElem?_of_mapM h).2 i
  rw [List.getElem?_range hi, Option.bind_some] at hg
  rw [hg, List.getD_eq_getElem?_getD, List.getElem?_eq_getElem hi, Option.getD_some]

section Rows

variable {T : Type} [BlockTable T] {cfg : RunnerConfig} {rs rs' : Runner T}
  {so : SchedulerOutput} {start_index : Nat} {inp : ModelInputs} {all_counts : List Nat}

-- The sampled index of a row is the end of its slice of the flat token list.
theorem logits_index_eq (h : Runner.Prepared cfg rs so start_index inp rs' all_counts)
    {counts : List Nat} (hcounts : counts = all_counts.take (cfg.num_reqs_limit all_counts)) :
    counts.length ≤ inp.logits_indices.length ∧
      ∀ i (hi : i < inp.logits_indices.length), inp.logits_indices[i] =
        if i < counts.length then ((counts.take (i + 1)).sum : Int) - 1 else 0 := by
  have hlen : counts.length = inp.num_reqs := by rw [hcounts, h.num_reqs, List.length_take]
  constructor
  · rw [h.logits_indices, List.length_map, List.length_range, hlen]
    have h1 := h.num_reqs_le
    have h2 := h.num_reqs
    have h3 := cfg.num_reqs_limit_le all_counts
    omega
  · intro i hi
    simp only [h.logits_indices, List.getElem_map, List.getElem_range, h.runner, ← hcounts,
      Runner.fill_buffers, Nat.add_one_ne_zero, ite_false]
    by_cases hlt : i < counts.length
    · simp [hlt, Nat.succ_le_of_lt hlt]
    · simp [hlt, show ¬i + 1 ≤ counts.length by omega]

theorem sum_take_succ {counts : List Nat} {i n : Nat} (h : counts[i]? = some n) :
    (counts.take (i + 1)).sum = (counts.take i).sum + n := by
  rw [List.take_add_one, h]
  simp

-- When only empty rows precede a row with tokens, the flat index stays in every row.
theorem sum_take_le {counts : List Nat} {padded_len : Nat}
    (hle : ∀ (i : Nat) (n : Nat), counts[i]? = some n → n ≤ padded_len)
    (h : ∀ (i : Nat) (n : Nat), counts[i]? = some n → 0 < n → (counts.take i).sum = 0)
    (i : Nat) : (counts.take i).sum ≤ padded_len := by
  induction i with
  | zero => simp
  | succ i ih =>
      cases hi : counts[i]? with
      | none =>
          have : counts.length ≤ i := List.getElem?_eq_none_iff.mp hi
          rwa [List.take_of_length_le (by omega), ← List.take_of_length_le this]
      | some n =>
          rw [sum_take_succ hi]
          rcases Nat.eq_zero_or_pos n with rfl | hn
          · omega
          · have := h i n hi hn
            have := hle i n hi
            omega

-- A row without padding: its count is the largest one, and a padded length itself.
theorem count_eq_padded_len (h : Runner.Prepared cfg rs so start_index inp rs' all_counts)
    {counts : List Nat} (hcounts : counts = all_counts.take (cfg.num_reqs_limit all_counts))
    {n : Nat} (hn : n ∈ counts) :
    n = inp.padded_len ↔ n ∈ cfg.num_tokens_paddings ∧ ∀ m ∈ counts, m ≤ n := by
  obtain ⟨m, hmax, hp⟩ := h.padded_max
  rw [← hcounts] at hmax
  obtain ⟨hm1, hm2⟩ := List.max?_eq_some_iff.mp hmax
  have hself := get_padded_token_len_eq_self hp
  have hle : m ≤ inp.padded_len := h.le_padded m (hcounts ▸ hm1)
  constructor
  · intro he
    obtain rfl : m = n := le_antisymm (by omega) (hm2 n hn)
    exact ⟨hself.mp he, hm2⟩
  · rintro ⟨hpad, hall⟩
    obtain rfl : m = n := le_antisymm (hall m hm1) (hm2 n hn)
    exact hself.mpr hpad

-- Each row is sampled from its own last token exactly when only empty rows precede it, or
-- when the index is clamped to the last position of a row without padding.
theorem picksOwn_iff (mode : OutOfRange) {counts : List Nat}
    (hcounts : Runner.chunk_counts cfg rs.input_batch so start_index = some counts)
    (h : Runner.prepare_inputs cfg rs so start_index = some (inp, rs')) :
    PicksOwn mode inp counts ↔ ∀ (i : Nat) (n : Nat), counts[i]? = some n → 0 < n →
      (counts.take i).sum = 0 ∨
        mode = .clamp ∧ n ∈ cfg.num_tokens_paddings ∧ ∀ m ∈ counts, m ≤ n := by
  obtain ⟨all_counts, hp⟩ := Runner.prepare_inputs_spec cfg h
  rw [Runner.chunk_counts, hp.scheduled, Option.map_some, Option.some.injEq] at hcounts
  have hpad : ∀ (i : Nat) (n : Nat), counts[i]? = some n →
      (n = inp.padded_len ↔ n ∈ cfg.num_tokens_paddings ∧ ∀ m ∈ counts, m ≤ n) :=
    fun i n hi => count_eq_padded_len hp hcounts.symm (List.mem_of_getElem? hi)
  obtain ⟨hlen, hidx⟩ := logits_index_eq hp hcounts.symm
  have hle : ∀ (i : Nat) (n : Nat), counts[i]? = some n → n ≤ inp.padded_len := fun i n hi =>
    hp.le_padded n (hcounts ▸ List.mem_of_getElem? hi)
  have hrow : ∀ (i : Nat) (n : Nat), counts[i]? = some n →
      ∃ hi : i < inp.logits_indices.length,
        inp.logits_indices[i] = ((counts.take i).sum + n : Int) - 1 := by
    intro i n hi
    have hlt := (List.getElem?_eq_some_iff.mp hi).1
    refine ⟨by omega, ?_⟩
    rw [hidx i (by omega), if_pos hlt, sum_take_succ hi, Nat.cast_add]
  constructor
  · intro hown i n hi hn
    obtain ⟨picked, hsel, hpick⟩ := hown (Nat × Nat) Prod.mk
    obtain ⟨hil, he⟩ := hrow i n hi
    have hmine := hpick i n hi hn
    rw [select_hidden_states_eq hsel hil, he] at hmine
    by_cases hin : (counts.take i).sum + n ≤ inp.padded_len
    · left
      rw [tensorIndex_of_lt mode (by omega) (by omega)] at hmine
      simp only [Option.map_some, Option.some.injEq, Prod.mk.injEq, true_and] at hmine
      omega
    · right
      cases mode with
      | raise => rw [tensorIndex_raise_of_le (by omega) (by omega)] at hmine; simp at hmine
      | clamp =>
          rw [tensorIndex_clamp_of_le (by omega) (by omega)] at hmine
          have := hle i n hi
          simp only [Option.map_some, Option.some.injEq, Prod.mk.injEq, true_and] at hmine
          exact ⟨rfl, (hpad i n hi).mp (by omega)⟩
  · intro hcond H hidden
    have hsome : ∀ i (hi : i < inp.logits_indices.length),
        (tensorIndex mode inp.padded_len inp.logits_indices[i]).isSome := by
      intro i hi
      cases mode with
      | clamp => exact tensorIndex_clamp_isSome _ _
      | raise =>
          have hpos := hp.padded_pos
          have hsum := sum_take_le hle (fun i n hi hn => by simpa using hcond i n hi hn) (i + 1)
          rw [hidx i hi]
          split
          · rcases Nat.eq_zero_or_pos (counts.take (i + 1)).sum with h0 | h0
            · rw [h0]; exact tensorIndex_neg_one _ hpos
            · rw [tensorIndex_of_lt _ (by omega) (by omega)]; rfl
          · rw [tensorIndex_of_lt _ (le_refl _) (by omega)]; rfl
    obtain ⟨picked, hsel⟩ : ∃ picked,
        select_hidden_states mode hidden inp.padded_len inp.logits_indices = some picked := by
      refine Options.mapM_isSome_of_forall fun i hi => ?_
      have hlt := List.mem_range.mp hi
      rw [Option.isSome_map, List.getD_eq_getElem?_getD, List.getElem?_eq_getElem hlt]
      exact hsome i hlt
    refine ⟨picked, hsel, fun i n hi hn => ?_⟩
    obtain ⟨hil, he⟩ := hrow i n hi
    rw [select_hidden_states_eq hsel hil, he]
    have hn' := hle i n hi
    by_cases hin : (counts.take i).sum + n ≤ inp.padded_len
    · rcases hcond i n hi hn with h0 | ⟨-, hmax⟩
      · rw [tensorIndex_of_lt mode (by omega) (by omega), Option.map_some]
        congr 2
        omega
      · have := (hpad i n hi).mpr hmax
        rw [tensorIndex_of_lt mode (by omega) (by omega), Option.map_some]
        congr 2
        omega
    · rcases hcond i n hi hn with h0 | ⟨rfl, hmax⟩
      · omega
      · rw [tensorIndex_clamp_of_le (by omega) (by omega), Option.map_some,
          (hpad i n hi).mpr hmax]

end Rows

section Example

open Runner

-- Two prompts of two tokens and one token, padded to 32: the second row is sampled at
-- position 2, past its only token.
def twoPrompts : ModelInputs × Runner DenseTable :=
  (prepare_inputs twoRows afterFirst firstStep 0).get (by decide)

theorem twoPrompts_not_picksOwn :
    chunk_counts twoRows afterFirst.input_batch firstStep 0 = some [2, 1] ∧
      prepare_inputs twoRows afterFirst firstStep 0 = some twoPrompts ∧
      ∀ mode, ¬PicksOwn mode twoPrompts.1 [2, 1] := by
  refine ⟨by decide, (Option.some_get _).symm, fun mode h => ?_⟩
  obtain ⟨picked, hsel, hpick⟩ := h (Nat × Nat) Prod.mk
  have hrow := hpick 1 1 rfl (by decide)
  have hidx : select_hidden_states mode Prod.mk twoPrompts.1.padded_len
      twoPrompts.1.logits_indices = some [(0, 1), (1, 2)] := by
    cases mode <;> decide
  rw [hidx] at hsel
  cases hsel
  revert hrow
  decide

-- A single prompt is sampled from its own last token.
def onePrompt : SchedulerOutput := prefill [newReq "A" [7, 8] [1]] []

def afterOne : Runner DenseTable :=
  (update_states twoRows .asListed (init oneGroup) onePrompt).get (by decide)

def oneInputs : ModelInputs × Runner DenseTable :=
  (prepare_inputs twoRows afterOne onePrompt 0).get (by decide)

theorem oneInputs_eq :
    prepare_inputs twoRows afterOne onePrompt 0 = some (oneInputs.1, oneInputs.2) := by
  rw [Prod.mk.eta, oneInputs, Option.some_get]

theorem oneInputs_picksOwn : PicksOwn .raise oneInputs.1 [2] := by
  refine (picksOwn_iff .raise (by decide) oneInputs_eq).mpr fun i n hi hn => ?_
  cases i with
  | zero => exact Or.inl rfl
  | succ i => simp at hi

end Example

end TTXla.VllmTT

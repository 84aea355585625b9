import TTXla.VllmTT.Sampler
import Mathlib.Analysis.SpecialFunctions.Exp
import Mathlib.Tactic.Linarith
import Mathlib.Algebra.BigOperators.Field

-- The tokens that the filters leave.
namespace TTXla.VllmTT.Sampler

open TTXla.Nucleus (sorted Upper IsNucleus)

variable {V : Nat} {L R : Type} [LinearOrder L]

-- The tokens that top-k keeps: fewer than `k` tokens have a larger logit.
def InTopK (logits : Logits V L) (k : Option Int) (i : Fin V) : Prop :=
  ∀ n ∈ k, 0 < n → ((Finset.univ.filter fun j => logits i < logits j).card : Int) < n

-- That is, the logit is not below the `k`-th largest.
theorem inTopK_iff (logits : Logits V L) {n : Nat} (hpos : 0 < n) (hn : n ≤ V) (i : Fin V) :
    InTopK logits (some n) i ↔
      ∀ kth ∈ (sorted (List.ofFn logits))[V - n]?, kth ≤ logits i := by
  have hlt : V - n < (sorted (List.ofFn logits)).length := by
    rw [Nucleus.length_sorted, List.length_ofFn]
    omega
  rw [List.getElem?_eq_getElem hlt]
  simp only [Option.mem_def, Option.some.injEq, forall_eq']
  rw [← not_lt, Nucleus.lt_getElem_iff (Nucleus.sorted_pairwise _),
    ← Nucleus.card_filter_univ logits (logits i < ·)]
  simp only [InTopK, Option.mem_def, Option.some.injEq, forall_eq', Nucleus.length_sorted,
    List.length_ofFn]
  omega

section Softmax

variable [Field R] [LinearOrder R]

-- A softmax, over rows with a finite logit.
structure IsSoftmax (softmax : Logits V L → Fin V → R) : Prop where
  sum : ∀ x, (∃ i, x i ≠ ⊥) → ∑ i, softmax x i = 1
  lt_iff : ∀ x, (∃ i, x i ≠ ⊥) → ∀ i j, softmax x i < softmax x j ↔ x i < x j
  masked : ∀ x, (∃ i, x i ≠ ⊥) → ∀ i, x i = ⊥ → softmax x i = 0
  pos : ∀ x i, x i ≠ ⊥ → 0 < softmax x i

-- The tokens that top-p keeps: the least set of most probable tokens that is heavy enough.
def InTopP (softmax : Logits V L → Fin V → R) (logits : Logits V L) (p : Option R) (i : Fin V) :
    Prop :=
  ∀ q ∈ p, ∃ s, IsNucleus (softmax logits) q s ∧ i ∈ s

variable {softmax : Logits V L → Fin V → R} {x : Logits V L}

theorem IsSoftmax.nonneg (h : IsSoftmax softmax) (hx : ∃ i, x i ≠ ⊥) (i : Fin V) :
    0 ≤ softmax x i := by
  by_cases hi : x i = ⊥
  · rw [h.masked x hx i hi]
  · exact (h.pos x i hi).le

theorem IsSoftmax.le_iff (h : IsSoftmax softmax) (hx : ∃ i, x i ≠ ⊥) (i j : Fin V) :
    softmax x i ≤ softmax x j ↔ x i ≤ x j := by
  rw [← not_lt, h.lt_iff x hx, not_lt]

end Softmax

section Cutoffs

theorem gather_natCast {l : List R} {c : Nat} (hc : c < l.length) :
    gather l (c : Int) = some l[c] := by
  unfold gather
  rw [if_pos (by omega), Int.toNat_natCast, List.getElem?_eq_getElem hc]

variable [LinearOrder R]

theorem top_k_cutoff_spec (w : Fin V → R) (hV : 0 < V) {k : Int} (hk : k ≤ V) :
    ∃ cutoff, top_k_cutoff V (sorted (List.ofFn w)) k = some cutoff ∧ ∀ i,
      (w i : WithBot R) < cutoff ↔
        0 < k ∧ k ≤ (Finset.univ.filter fun j => w i < w j).card := by
  unfold top_k_cutoff
  obtain ⟨c, hc, hindex⟩ : ∃ c : Nat, c < V ∧ min ((V : Int) - k) (V - 1) = c :=
    ⟨(min ((V : Int) - k) (V - 1)).toNat, by omega, by omega⟩
  dsimp only
  rw [hindex, gather_natCast (by simpa using hc)]
  refine ⟨_, rfl, fun i => ?_⟩
  have hcard : (Finset.univ.filter fun j => w i < w j).card < V := by
    have hlt := Finset.card_lt_card (Finset.filter_ssubset.mpr
      ⟨i, Finset.mem_univ i, lt_irrefl (w i)⟩ : Finset.univ.filter (w i < w ·) ⊂ Finset.univ)
    rwa [Finset.card_univ, Fintype.card_fin] at hlt
  by_cases hoff : k ≤ 0 ∨ k = V
  · rw [if_pos hoff]
    simp only [not_lt_bot, false_iff]
    omega
  · rw [if_neg hoff, WithBot.coe_lt_coe, Nucleus.lt_getElem_iff (Nucleus.sorted_pairwise _),
      ← Nucleus.card_filter_univ w (w i < ·), Nucleus.length_sorted, List.length_ofFn]
    omega

-- More tokens than there are have no cutoff: the index is negative.
omit [LinearOrder R] in
theorem top_k_cutoff_of_lt (l : List R) {k : Int} (hk : (V : Int) < k) :
    top_k_cutoff V l k = none := by
  unfold top_k_cutoff gather
  dsimp only
  rw [if_neg (by omega)]
  rfl

variable [Field R] [IsStrictOrderedRing R]

-- The masked entries are those whose prefix is light, and the last one is not masked.
theorem top_p_cutoff_spec (w : Fin V → R) (hV : 0 < V) (hw : ∀ i, 0 ≤ w i)
    (hsum : ∑ i, w i = 1) {p : R} (hpos : 0 < p) (hle : p ≤ 1) :
    ∃ cutoff, top_p_cutoff V (sorted (List.ofFn w)) p = some cutoff ∧
      IsNucleus w p {i | cutoff ≤ w i} := by
  unfold top_p_cutoff
  dsimp only
  generalize hl : sorted (List.ofFn w) = l
  have hlen : l.length = V := by simp [← hl]
  have hnonneg : ∀ a ∈ l, 0 ≤ a := by
    intro a ha
    rw [← hl, Nucleus.mem_sorted] at ha
    obtain ⟨i, rfl⟩ := ha
    exact hw i
  have hsorted : l.Pairwise (· ≤ ·) := hl ▸ Nucleus.sorted_pairwise _
  have htotal : l.sum = 1 := by rw [← hl, Nucleus.sum_sorted, hsum]
  have hmask : ∀ i < V, (i ≠ V - 1 ∧ ∀ c ∈ (cumsum l)[i]?, c ≤ 1 - p) ↔
      i ≠ V - 1 ∧ (l.take (i + 1)).sum ≤ 1 - p := by
    intro i hi
    unfold cumsum
    rw [List.getElem?_map, List.getElem?_range (by omega)]
    simp
  have hmono : ∀ i j, i ≤ j → (l.take i).sum ≤ (l.take j).sum := by
    intro i j hij
    apply List.Sublist.sum_le_sum (List.take_sublist_take_left hij)
    exact fun a ha => hnonneg a (List.mem_of_mem_take ha)
  have hcount := Nucleus.lt_countP_range
    (q := fun i => i ≠ V - 1 ∧ ∀ c ∈ (cumsum l)[i]?, c ≤ 1 - p) V (by
      intro i j hij hj hq
      obtain ⟨h1, h2⟩ := (hmask j hj).mp hq
      refine (hmask i (by omega)).mpr ⟨by omega, (hmono _ _ (by omega)).trans h2⟩)
  generalize (List.range V).countP
    (fun i => decide (i ≠ V - 1 ∧ ∀ c ∈ (cumsum l)[i]?, c ≤ 1 - p)) = c at hcount ⊢
  have hc : c < V := by
    by_contra hge
    exact ((hcount (V - 1) (by omega)).mpr (by omega)).1 rfl
  have hbelow : (l.take c).sum ≤ 1 - p := by
    cases c with
    | zero => simpa using hle
    | succ c => exact ((hmask c (by omega)).mp ((hcount c (by omega)).mpr (by omega))).2
  have habove : 1 - p < (l.take (c + 1)).sum := by
    by_cases hlast : c = V - 1
    · rw [List.take_of_length_le (by omega), htotal]
      linarith
    · by_contra hge
      have hself := (hcount c hc).mp ((hmask c hc).mpr ⟨hlast, not_lt.mp hge⟩)
      exact Nat.lt_irrefl c hself
  rw [gather_natCast (by omega)]
  refine ⟨_, rfl, Nucleus.isNucleus_cutoff hw ?_ ?_⟩
  · rw [Nucleus.sum_filter_univ w (l[c] ≤ ·), hl]
    have hdrop := Nucleus.sum_drop_le hsorted hnonneg (show c < l.length by omega)
    have hsplit : (l.take c).sum + (l.drop c).sum = 1 := by
      rw [← List.sum_append, List.take_append_drop, htotal]
    linarith
  · rw [Nucleus.sum_filter_univ w (l[c] < ·), hl]
    have hdrop := Nucleus.sum_lt_le hsorted hnonneg (show c < l.length by omega)
    have hsplit : (l.take (c + 1)).sum + (l.drop (c + 1)).sum = 1 := by
      rw [← List.sum_append, List.take_append_drop, htotal]
    linarith

end Cutoffs

section Filters

variable [Field R] [LinearOrder R] [IsStrictOrderedRing R] {softmax : Logits V L → Fin V → R}
  {x : Logits V L}

omit [LinearOrder L] in
theorem masked_fill_spec (x : Logits V L) (mask : Fin V → Prop) [DecidablePred mask] (i : Fin V) :
    (masked_fill x mask i ≠ ⊥ ↔ x i ≠ ⊥ ∧ ¬mask i) ∧
      (masked_fill x mask i ≠ ⊥ → masked_fill x mask i = x i) := by
  unfold masked_fill
  by_cases h : mask i
  · simp [h]
  · simp [h]

-- A token passes min-p when it is at least that much as probable as any other.
omit [LinearOrder L] in
theorem apply_min_p_spec (softmax : Logits V L → Fin V → R) (hV : 0 < V) {min_p : R}
    (hm : 0 ≤ min_p) (x : Logits V L) :
    ∃ mid, apply_min_p softmax x min_p = some mid ∧ ∀ i,
      (mid i ≠ ⊥ ↔ x i ≠ ⊥ ∧ ∀ j, min_p * softmax x j ≤ softmax x i) ∧
      (mid i ≠ ⊥ → mid i = x i) := by
  unfold apply_min_p
  obtain ⟨most, hmost⟩ : ∃ most, (List.ofFn (softmax x)).max? = some most := by
    apply Option.isSome_iff_exists.mp
    rw [List.isSome_max?_iff]
    simp only [ne_eq, List.ofFn_eq_nil_iff]
    omega
  dsimp only
  rw [hmost]
  refine ⟨_, rfl, fun i => ?_⟩
  obtain ⟨h1, h2⟩ := masked_fill_spec x (fun i => ¬min_p * most ≤ softmax x i) i
  refine ⟨h1.trans ?_, h2⟩
  apply and_congr_right
  intro _
  obtain ⟨hmem, hall⟩ := List.max?_eq_some_iff.mp hmost
  rw [not_not]
  constructor
  · intro hle j
    have hj : softmax x j ≤ most := hall _ (List.mem_ofFn.mpr ⟨j, rfl⟩)
    exact (mul_le_mul_of_nonneg_left hj hm).trans hle
  · intro hle
    obtain ⟨j, rfl⟩ := List.mem_ofFn.mp hmem
    exact hle j

omit [IsStrictOrderedRing R] in
theorem discard_top_k_spec (h : IsSoftmax softmax) (hx : ∃ i, x i ≠ ⊥) (hV : 0 < V)
    {k : Option Int} (hk : ∀ n ∈ k, n ≤ V) :
    ∃ mid, discard_top_k (softmax x) x k = some mid ∧ ∀ i,
      (mid i ≠ ⊥ ↔ x i ≠ ⊥ ∧ InTopK x k i) ∧ (mid i ≠ ⊥ → mid i = x i) := by
  cases k with
  | none => exact ⟨x, rfl, fun i => ⟨by simp [InTopK], fun _ => rfl⟩⟩
  | some k =>
      obtain ⟨cutoff, hcutoff, hdiscard⟩ := top_k_cutoff_spec (softmax x) hV (hk k rfl)
      unfold discard_top_k
      dsimp only
      rw [hcutoff]
      refine ⟨_, rfl, fun i => ?_⟩
      obtain ⟨h1, h2⟩ := masked_fill_spec x (fun i => (softmax x i : WithBot R) < cutoff) i
      refine ⟨h1.trans ?_, h2⟩
      rw [hdiscard]
      simp only [h.lt_iff x hx, InTopK, Option.mem_def, Option.some.injEq, forall_eq', not_and,
        not_le]

theorem discard_top_p_spec (h : IsSoftmax softmax) (hx : ∃ i, x i ≠ ⊥) (hV : 0 < V)
    {p : Option R} (hp : ∀ q ∈ p, 0 < q ∧ q ≤ 1) (mid : Logits V L) :
    ∃ out, discard_top_p (softmax x) mid p = some out ∧ ∀ i,
      (out i ≠ ⊥ ↔ mid i ≠ ⊥ ∧ InTopP softmax x p i) ∧ (out i ≠ ⊥ → out i = mid i) := by
  cases p with
  | none => exact ⟨mid, rfl, fun i => ⟨by simp [InTopP], fun _ => rfl⟩⟩
  | some p =>
      obtain ⟨hpos, hle⟩ := hp p rfl
      obtain ⟨cutoff, hcutoff, hnucleus⟩ :=
        top_p_cutoff_spec (softmax x) hV (h.nonneg hx) (h.sum x hx) hpos hle
      unfold discard_top_p
      dsimp only
      rw [hcutoff]
      refine ⟨_, rfl, fun i => ?_⟩
      obtain ⟨h1, h2⟩ := masked_fill_spec mid (fun i => softmax x i < cutoff) i
      refine ⟨h1.trans ?_, h2⟩
      apply and_congr_right
      intro _
      rw [not_lt]
      constructor
      · rintro hcut q hq
        cases hq
        exact ⟨_, hnucleus, by simpa using hcut⟩
      · intro hin
        obtain ⟨s, hs, hi⟩ := hin p rfl
        rw [hs.unique hnucleus] at hi
        simpa using hi

theorem apply_top_k_top_p_spec (h : IsSoftmax softmax) (hx : ∃ i, x i ≠ ⊥) {k : Option Int}
    (hk : ∀ n ∈ k, n ≤ V) {p : Option R} (hp : ∀ q ∈ p, 0 < q ∧ q ≤ 1) :
    ∃ out, apply_top_k_top_p softmax x k p = some out ∧ ∀ i,
      (out i ≠ ⊥ ↔ x i ≠ ⊥ ∧ InTopK x k i ∧ InTopP softmax x p i) ∧
      (out i ≠ ⊥ → out i = x i) := by
  have hV : 0 < V := by
    obtain ⟨i, -⟩ := hx
    have := i.isLt
    omega
  obtain ⟨mid, hmid, hspec⟩ := discard_top_k_spec h hx hV hk
  obtain ⟨out, hout, hspec'⟩ := discard_top_p_spec h hx hV hp mid
  refine ⟨out, ?_, fun i => ⟨?_, fun hi => ?_⟩⟩
  · unfold apply_top_k_top_p
    dsimp only
    rw [hmid]
    exact hout
  · rw [(hspec' i).1, (hspec i).1, and_assoc]
  · have hmid_i := ((hspec' i).1.mp hi).1
    rw [(hspec' i).2 hi, (hspec i).2 hmid_i]

-- What the filters do to a row: `mid` stands at the entry of `apply_top_k_top_p`.
structure Filtered (softmax : Logits V L → Fin V → R) (x : Logits V L) (min_p : Option R)
    (k : Option Int) (p : Option R) (mid out : Logits V L) : Prop where
  entry : apply_filters softmax x min_p none none = some mid
  filters : apply_filters softmax x min_p k p = some out
  kept : ∀ i, out i ≠ ⊥ → out i = x i
  min_p_kept : ∀ i, mid i ≠ ⊥ ↔ x i ≠ ⊥ ∧ ∀ m ∈ min_p, ∀ j, m * softmax x j ≤ softmax x i
  survives : ∀ i, out i ≠ ⊥ ↔ mid i ≠ ⊥ ∧ InTopK mid k i ∧ InTopP softmax mid p i
  no_min_p : (∀ m ∈ min_p, m = 0) → mid = x
  no_top_k : (∀ n ∈ k, n ≤ 0 ∨ n = V) → apply_filters softmax x min_p none p = some out
  no_top_p : (∀ q ∈ p, q = 1) → apply_filters softmax x min_p k none = some out
  upper : ∀ i j, out i ≠ ⊥ → softmax x i ≤ softmax x j → out j ≠ ⊥
  maximal : ∃ i, out i ≠ ⊥ ∧ ∀ j, softmax x j ≤ softmax x i

theorem inTopK_of_disabled {mid : Logits V L} {k : Option Int} (hk : ∀ n ∈ k, n ≤ 0 ∨ n = V)
    (i : Fin V) : InTopK mid k i := by
  intro n hn hpos
  have hlt := Finset.card_lt_card (Finset.filter_ssubset.mpr
    ⟨i, Finset.mem_univ i, lt_irrefl (mid i)⟩ : Finset.univ.filter (mid i < mid ·) ⊂ Finset.univ)
  rw [Finset.card_univ, Fintype.card_fin] at hlt
  rcases hk n hn with h | rfl
  · omega
  · exact_mod_cast hlt

theorem inTopK_upper {mid : Logits V L} {k : Option Int} {i j : Fin V} (h : InTopK mid k i)
    (hij : mid i ≤ mid j) : InTopK mid k j := by
  intro n hn hpos
  have hsub : (Finset.univ.filter fun l => mid j < mid l) ⊆
      Finset.univ.filter fun l => mid i < mid l := by
    intro l hl
    simp only [Finset.mem_filter, Finset.mem_univ, true_and] at hl ⊢
    exact hij.trans_lt hl
  have hcard := Finset.card_le_card hsub
  have := h n hn hpos
  omega

-- A nucleus of the whole mass lacks impossible tokens only.
theorem mem_nucleus_one (h : IsSoftmax softmax) (hx : ∃ i, x i ≠ ⊥) {s : Finset (Fin V)}
    (hs : IsNucleus (softmax x) 1 s) {i : Fin V} (hi : x i ≠ ⊥) : i ∈ s := by
  by_contra hnot
  have hle := Finset.sum_le_sum_of_subset_of_nonneg (Finset.subset_univ (insert i s))
    (f := softmax x) fun j _ _ => h.nonneg hx j
  rw [Finset.sum_insert hnot, h.sum x hx] at hle
  have hpos := h.pos x i hi
  have hmass := hs.mass
  linarith

omit [IsStrictOrderedRing R] in
theorem inTopP_upper (h : IsSoftmax softmax) (hx : ∃ i, x i ≠ ⊥) {p : Option R} {i j : Fin V}
    (hi : InTopP softmax x p i) (hij : x i ≤ x j) : InTopP softmax x p j := by
  intro q hq
  obtain ⟨s, hs, hmem⟩ := hi q hq
  exact ⟨s, hs, hs.upper i hmem j ((h.le_iff hx i j).mpr hij)⟩

theorem exists_nucleus (h : IsSoftmax softmax) (hx : ∃ i, x i ≠ ⊥) {q : R} (hpos : 0 < q)
    (hle : q ≤ 1) : ∃ s, IsNucleus (softmax x) q s := by
  have hV : 0 < V := by
    obtain ⟨i, -⟩ := hx
    have := i.isLt
    omega
  obtain ⟨cutoff, -, hs⟩ := top_p_cutoff_spec (softmax x) hV (h.nonneg hx) (h.sum x hx) hpos hle
  exact ⟨_, hs⟩

-- A most probable token is in every nucleus that has to weigh something.
theorem inTopP_of_maximal (h : IsSoftmax softmax) (hx : ∃ i, x i ≠ ⊥) {p : Option R}
    (hp : ∀ q ∈ p, 0 < q ∧ q ≤ 1) {i : Fin V} (hi : ∀ j, x j ≤ x i) : InTopP softmax x p i := by
  intro q hq
  obtain ⟨hpos, hle⟩ := hp q hq
  obtain ⟨s, hs⟩ := exists_nucleus h hx hpos hle
  refine ⟨s, hs, ?_⟩
  rcases s.eq_empty_or_nonempty with rfl | ⟨j, hj⟩
  · have hmass := hs.mass
    rw [Finset.sum_empty] at hmass
    linarith
  · exact hs.upper j hj i ((h.le_iff hx j i).mpr (hi j))

-- The logits at the entry of `apply_top_k_top_p`.
omit [LinearOrder L] in
theorem entry_spec (softmax : Logits V L → Fin V → R) (hV : 0 < V) (x : Logits V L)
    {min_p : Option R} (hm : ∀ m ∈ min_p, 0 ≤ m ∧ m ≤ 1) :
    ∃ mid, (∀ k p, apply_filters softmax x min_p k p = apply_top_k_top_p softmax mid k p) ∧
      ∀ i, (mid i ≠ ⊥ ↔ x i ≠ ⊥ ∧ ∀ m ∈ min_p, ∀ j, m * softmax x j ≤ softmax x i) ∧
        (mid i ≠ ⊥ → mid i = x i) := by
  cases min_p with
  | none => exact ⟨x, fun k p => rfl, fun i => ⟨by simp, fun _ => rfl⟩⟩
  | some m =>
      obtain ⟨mid, hmid, hspec⟩ := apply_min_p_spec softmax hV (hm m rfl).1 x
      refine ⟨mid, fun k p => ?_, fun i => ?_⟩
      · unfold apply_filters
        dsimp only
        rw [hmid]
        rfl
      · simpa using hspec i

-- A row is determined by its survivors.
theorem eq_of_survivors {y out out' : Logits V L} (h : ∀ i, out i ≠ ⊥ ↔ out' i ≠ ⊥)
    (ho : ∀ i, out i ≠ ⊥ → out i = y i) (ho' : ∀ i, out' i ≠ ⊥ → out' i = y i) : out = out' := by
  funext i
  by_cases hi : out i = ⊥
  · have hi' : out' i = ⊥ := by
      by_contra hne
      exact (h i).mpr hne hi
    rw [hi, hi']
  · rw [ho i hi, ho' i ((h i).mp hi)]

theorem filters_survivors (h : IsSoftmax softmax) (hx : ∃ i, x i ≠ ⊥) {min_p : Option R}
    (hm : ∀ m ∈ min_p, 0 ≤ m ∧ m ≤ 1) {k : Option Int} (hk : ∀ n ∈ k, n ≤ V) {p : Option R}
    (hp : ∀ q ∈ p, 0 < q ∧ q ≤ 1) : ∃ mid out, Filtered softmax x min_p k p mid out := by
  have hV : 0 < V := by
    obtain ⟨i, -⟩ := hx
    have := i.isLt
    omega
  obtain ⟨mid, hentry, hmid⟩ := entry_spec softmax hV x hm
  -- a token with the largest logit passes min-p
  obtain ⟨top, -, htop⟩ := Finset.exists_max_image Finset.univ x ⟨⟨0, hV⟩, Finset.mem_univ _⟩
  have htop : ∀ j, x j ≤ x top := fun j => htop j (Finset.mem_univ j)
  have hfinite : x top ≠ ⊥ := by
    obtain ⟨i, hi⟩ := hx
    intro hbot
    exact hi (le_bot_iff.mp (hbot ▸ htop i))
  have htop_mid : mid top ≠ ⊥ := by
    refine (hmid top).1.mpr ⟨hfinite, fun m hmem j => ?_⟩
    obtain ⟨-, hone⟩ := hm m hmem
    exact (mul_le_of_le_one_left (h.nonneg hx j) hone).trans ((h.le_iff hx j top).mpr (htop j))
  have hy : ∃ i, mid i ≠ ⊥ := ⟨top, htop_mid⟩
  have htop_max : ∀ j, mid j ≤ mid top := by
    intro j
    by_cases hj : mid j = ⊥
    · rw [hj]
      exact bot_le
    · rw [(hmid j).2 hj, (hmid top).2 htop_mid]
      exact htop j
  obtain ⟨out, hout, hsurvives⟩ := apply_top_k_top_p_spec h hy hk hp
  refine ⟨mid, out, by rw [hentry]; rfl, by rw [hentry, hout], fun i hi => ?_,
    fun i => (hmid i).1, fun i => (hsurvives i).1, fun hoff => ?_, fun hoff => ?_, fun hoff => ?_,
    fun i j hi hij => ?_, ⟨top, ?_, fun j => (h.le_iff hx j top).mpr (htop j)⟩⟩
  · rw [(hsurvives i).2 hi, (hmid i).2 ((hsurvives i).1.mp hi).1]
  · apply eq_of_survivors (y := x) _ (fun i => (hmid i).2) (fun i _ => rfl)
    intro i
    rw [(hmid i).1]
    apply and_iff_left
    intro m hmem j
    rw [hoff m hmem, zero_mul]
    exact h.nonneg hx i
  · obtain ⟨out', hout', hsurvives'⟩ := apply_top_k_top_p_spec (k := none) h hy (by simp) hp
    rw [hentry, hout', eq_of_survivors (y := mid) _ (fun i => (hsurvives' i).2)
      fun i => (hsurvives i).2]
    intro i
    rw [(hsurvives' i).1, (hsurvives i).1]
    simp only [inTopK_of_disabled hoff i, inTopK_of_disabled (k := none) (by simp) i]
  · obtain ⟨out', hout', hsurvives'⟩ := apply_top_k_top_p_spec (p := none) h hy hk (by simp)
    rw [hentry, hout', eq_of_survivors (y := mid) _ (fun i => (hsurvives' i).2)
      fun i => (hsurvives i).2]
    intro i
    rw [(hsurvives' i).1, (hsurvives i).1]
    have hnone : InTopP softmax mid none i := by simp [InTopP]
    have hone : mid i ≠ ⊥ → InTopP softmax mid p i := by
      intro hi q hq
      obtain ⟨hpos, hle⟩ := hp q hq
      obtain ⟨s, hs⟩ := exists_nucleus h hy hpos hle
      obtain rfl := hoff q hq
      exact ⟨s, hs, mem_nucleus_one h hy hs hi⟩
    constructor
    · rintro ⟨h1, h2, -⟩
      exact ⟨h1, h2, hone h1⟩
    · rintro ⟨h1, h2, -⟩
      exact ⟨h1, h2, hnone⟩
  · obtain ⟨h1, h2, h3⟩ := (hsurvives i).1.mp hi
    obtain ⟨hxi, hmin⟩ := (hmid i).1.mp h1
    have hle := (h.le_iff hx i j).mp hij
    have hxj : x j ≠ ⊥ := by
      intro hbot
      exact hxi (le_bot_iff.mp (hbot ▸ hle))
    have hmj : mid j ≠ ⊥ :=
      (hmid j).1.mpr ⟨hxj, fun m hmem l => (hmin m hmem l).trans hij⟩
    have hle' : mid i ≤ mid j := by
      rw [(hmid i).2 h1, (hmid j).2 hmj]
      exact hle
    exact (hsurvives j).1.mpr ⟨hmj, inTopK_upper h2 hle', inTopP_upper h hy h3 hle'⟩
  · refine (hsurvives top).1.mpr ⟨htop_mid, fun n hn hpos => ?_, inTopP_of_maximal h hy hp htop_max⟩
    have hnone : (Finset.univ.filter fun j => mid top < mid j) = ∅ :=
      Finset.filter_eq_empty_iff.mpr fun j _ => not_lt.mpr (htop_max j)
    rw [hnone, Finset.card_empty]
    exact hpos

end Filters

section Example

-- The softmax of the reals.
noncomputable def weight : WithBot ℝ → ℝ
  | ⊥ => 0
  | (a : ℝ) => Real.exp a

noncomputable def softmax (x : Logits V ℝ) (i : Fin V) : ℝ := weight (x i) / ∑ j, weight (x j)

theorem weight_nonneg (a : WithBot ℝ) : 0 ≤ weight a := by
  cases a with
  | bot => exact le_rfl
  | coe a => exact (Real.exp_pos a).le

theorem weight_pos {a : WithBot ℝ} (ha : a ≠ ⊥) : 0 < weight a := by
  cases a with
  | bot => exact absurd rfl ha
  | coe a => exact Real.exp_pos a

theorem weight_lt_iff (a b : WithBot ℝ) : weight a < weight b ↔ a < b := by
  cases a with
  | bot =>
      cases b with
      | bot => simp
      | coe b => simpa [weight] using Real.exp_pos b
  | coe a =>
      cases b with
      | bot => simpa [weight] using (Real.exp_pos a).le
      | coe b => simp [weight]

theorem softmax_isSoftmax : IsSoftmax (softmax (V := V)) := by
  have htotal : ∀ x : Logits V ℝ, (∃ i, x i ≠ ⊥) → 0 < ∑ j, weight (x j) := by
    rintro x ⟨i, hi⟩
    exact Finset.sum_pos' (fun j _ => weight_nonneg _) ⟨i, Finset.mem_univ i, weight_pos hi⟩
  refine ⟨fun x hx => ?_, fun x hx i j => ?_, fun x hx i hi => ?_, fun x i hi => ?_⟩
  · unfold softmax
    rw [← Finset.sum_div, div_self (htotal x hx).ne']
  · unfold softmax
    rw [div_lt_div_iff_of_pos_right (htotal x hx), weight_lt_iff]
  · unfold softmax
    rw [hi]
    exact zero_div _
  · exact div_pos (weight_pos hi) (htotal x ⟨i, hi⟩)

theorem threeTokens_survivors : ∃ mid out,
    Filtered softmax (![(2 : ℝ), (1 : ℝ), ⊥] : Logits 3 ℝ) (some (1 / 2)) (some 2) (some (9 / 10))
      mid out := by
  apply filters_survivors softmax_isSoftmax
  · exact ⟨0, WithBot.coe_ne_bot⟩
  · simp only [Option.mem_def, Option.some.injEq, forall_eq']
    norm_num
  · simp
  · simp only [Option.mem_def, Option.some.injEq, forall_eq']
    norm_num

end Example

end TTXla.VllmTT.Sampler

import Mathlib.Algebra.BigOperators.Fin
import Mathlib.Algebra.Order.BigOperators.Group.Finset
import Mathlib.Algebra.Order.BigOperators.Group.List

-- Sets that are upward closed in a weight, and the ranks and sums of sorted lists.
namespace TTXla.Nucleus

section Sorted

variable {R : Type*} [LinearOrder R]

def sorted (l : List R) : List R := l.mergeSort fun a b => a ≤ b

theorem sorted_perm (l : List R) : (sorted l).Perm l := List.mergeSort_perm l _

theorem sorted_pairwise (l : List R) : (sorted l).Pairwise (· ≤ ·) := by
  have h : (l.mergeSort fun a b => decide (a ≤ b)).Pairwise fun a b => decide (a ≤ b) :=
    List.pairwise_mergeSort (by simpa using fun a b c => le_trans) (by simpa using le_total) l
  simpa [sorted] using h

@[simp] theorem length_sorted (l : List R) : (sorted l).length = l.length :=
  (sorted_perm l).length_eq

theorem le_of_mem_take {l : List R} (h : l.Pairwise (· ≤ ·)) {c : Nat} (hc : c < l.length) {a : R}
    (ha : a ∈ l.take (c + 1)) : a ≤ l[c] := by
  obtain ⟨i, hi, rfl⟩ := List.getElem_of_mem ha
  rw [List.length_take] at hi
  rw [List.getElem_take]
  rcases Nat.lt_or_eq_of_le (show i ≤ c by omega) with hlt | rfl
  · exact List.pairwise_iff_getElem.mp h i c (by omega) hc hlt
  · exact le_rfl

theorem le_of_mem_drop {l : List R} (h : l.Pairwise (· ≤ ·)) {c : Nat} (hc : c < l.length) {a : R}
    (ha : a ∈ l.drop c) : l[c] ≤ a := by
  obtain ⟨i, hi, rfl⟩ := List.getElem_of_mem ha
  rw [List.length_drop] at hi
  rw [List.getElem_drop]
  rcases Nat.eq_zero_or_pos i with rfl | hpos
  · exact le_rfl
  · exact List.pairwise_iff_getElem.mp h c (c + i) hc (by omega) (by omega)

-- An element is below an entry of a sorted list when all from that entry on are larger.
theorem lt_getElem_iff {l : List R} (h : l.Pairwise (· ≤ ·)) {c : Nat} (hc : c < l.length) (x : R) :
    x < l[c] ↔ l.length - c ≤ l.countP (x < ·) := by
  have hsplit : l.countP (x < ·) = (l.take (c + 1)).countP (x < ·) +
      (l.drop (c + 1)).countP (x < ·) := by
    rw [← List.countP_append, List.take_append_drop]
  have hdrop : l.drop c = l[c] :: l.drop (c + 1) := List.drop_eq_getElem_cons hc
  constructor
  · intro hlt
    have hall : (l.drop c).countP (x < ·) = (l.drop c).length := by
      apply List.countP_eq_length.mpr
      intro a ha
      simpa using hlt.trans_le (le_of_mem_drop h hc ha)
    have hle : (l.drop c).countP (x < ·) ≤ l.countP (x < ·) :=
      (List.drop_sublist c l).countP_le
    rw [hall, List.length_drop] at hle
    exact hle
  · intro hcount
    by_contra hge
    have hnone : (l.take (c + 1)).countP (x < ·) = 0 := by
      apply List.countP_eq_zero.mpr
      intro a ha
      simpa using (le_of_mem_take h hc ha).trans (not_lt.mp hge)
    have hle : (l.drop (c + 1)).countP (x < ·) ≤ (l.drop (c + 1)).length := List.countP_le_length
    rw [List.length_drop] at hle
    omega

end Sorted

section Mass

variable {ι R : Type*} [Fintype ι] [AddCommGroup R] [LinearOrder R] [IsOrderedAddMonoid R]

def Upper (w : ι → R) (s : Finset ι) : Prop := ∀ i ∈ s, ∀ j, w i ≤ w j → j ∈ s

-- The least upward closed set whose mass is at least `p`.
structure IsNucleus (w : ι → R) (p : R) (s : Finset ι) : Prop where
  upper : Upper w s
  mass : p ≤ ∑ i ∈ s, w i
  least : ∀ t, Upper w t → p ≤ ∑ i ∈ t, w i → s ⊆ t

omit [Fintype ι] [IsOrderedAddMonoid R] in
theorem IsNucleus.unique {w : ι → R} {p : R} {s t : Finset ι} (hs : IsNucleus w p s)
    (ht : IsNucleus w p t) : s = t :=
  (hs.least t ht.upper ht.mass).antisymm (ht.least s hs.upper hs.mass)

-- What is at least a cutoff is a nucleus when it is heavy enough and what exceeds the cutoff
-- is not.
theorem isNucleus_cutoff {w : ι → R} {p t : R} (hw : ∀ i, 0 ≤ w i)
    (hmass : p ≤ ∑ i with t ≤ w i, w i) (hlight : ∑ i with t < w i, w i < p) :
    IsNucleus w p {i | t ≤ w i} := by
  refine ⟨?_, hmass, ?_⟩
  · intro i hi j hij
    simp only [Finset.mem_filter, Finset.mem_univ, true_and] at hi ⊢
    exact hi.trans hij
  · intro u hu hp i hi
    simp only [Finset.mem_filter, Finset.mem_univ, true_and] at hi
    by_contra hnot
    have hsub : u ⊆ Finset.univ.filter fun j => t < w j := by
      intro j hj
      have hlt : w i < w j := by
        by_contra hge
        exact hnot (hu j hj i (not_lt.mp hge))
      simp only [Finset.mem_filter, Finset.mem_univ, true_and]
      exact hi.trans_lt hlt
    have hle := Finset.sum_le_sum_of_subset_of_nonneg hsub fun j _ _ => hw j
    exact absurd (hp.trans hle) (not_le.mpr hlight)

end Mass

section Prefix

variable {R : Type*} [AddCommGroup R] [LinearOrder R] [IsOrderedAddMonoid R]

-- Cut at an entry of a sorted list, what is at least the entry weighs as much as the rest of
-- the list, and what exceeds it no more than the rest without the entry.
theorem sum_drop_le {l : List R} (h : l.Pairwise (· ≤ ·)) (hpos : ∀ a ∈ l, 0 ≤ a) {c : Nat}
    (hc : c < l.length) : (l.drop c).sum ≤ (l.filter (l[c] ≤ ·)).sum := by
  have hall : (l.drop c).filter (l[c] ≤ ·) = l.drop c :=
    List.filter_eq_self.mpr fun a ha => by simpa using le_of_mem_drop h hc ha
  have hsplit : l.filter (l[c] ≤ ·) =
      (l.take c).filter (l[c] ≤ ·) ++ (l.drop c).filter (l[c] ≤ ·) := by
    rw [← List.filter_append, List.take_append_drop]
  rw [hsplit, hall, List.sum_append]
  apply le_add_of_nonneg_left
  apply List.sum_nonneg
  intro a ha
  exact hpos a (List.mem_of_mem_take (List.mem_filter.mp ha).1)

theorem sum_lt_le {l : List R} (h : l.Pairwise (· ≤ ·)) (hpos : ∀ a ∈ l, 0 ≤ a) {c : Nat}
    (hc : c < l.length) : (l.filter (l[c] < ·)).sum ≤ (l.drop (c + 1)).sum := by
  have hnone : (l.take (c + 1)).filter (l[c] < ·) = [] :=
    List.filter_eq_nil_iff.mpr fun a ha => by simpa using le_of_mem_take h hc ha
  have hsplit : l.filter (l[c] < ·) =
      (l.take (c + 1)).filter (l[c] < ·) ++ (l.drop (c + 1)).filter (l[c] < ·) := by
    rw [← List.filter_append, List.take_append_drop]
  rw [hsplit, hnone, List.nil_append]
  apply List.Sublist.sum_le_sum List.filter_sublist
  intro a ha
  exact hpos a (List.mem_of_mem_drop ha)

end Prefix

-- Of a property that holds of an initial segment, the number of its instances is its end.
theorem lt_countP_range {q : Nat → Prop} [DecidablePred q] (n : Nat)
    (h : ∀ i j, i ≤ j → j < n → q j → q i) :
    ∀ i < n, q i ↔ i < (List.range n).countP q := by
  induction n with
  | zero =>
      intro i hi
      omega
  | succ n ih =>
      intro i hi
      have ih := ih (fun i j hij hj => h i j hij (by omega))
      have hle : (List.range n).countP q ≤ n := by
        simpa using List.countP_le_length (p := fun i => decide (q i)) (l := List.range n)
      rw [List.range_succ, List.countP_append, List.countP_singleton]
      by_cases hq : q n
      · have hall : (List.range n).countP q = n := by
          by_contra hne
          have hlt : (List.range n).countP q < n := by omega
          have := (ih _ hlt).mp (h _ n (by omega) (by omega) hq)
          omega
        simp only [hq, decide_true, ite_true, hall]
        exact iff_of_true (h i n (by omega) (by omega) hq) hi
      · simp only [hq, decide_false, Bool.false_eq_true, ite_false, Nat.add_zero]
        rcases Nat.lt_or_eq_of_le (show i ≤ n by omega) with hlt | rfl
        · exact ih i hlt
        · exact iff_of_false hq (by omega)

section Row

variable {R : Type*} [LinearOrder R] {n : Nat}

-- The entries of a row that have a property, in the order of the sorted row.
theorem map_filter_univ (w : Fin n → R) (q : R → Prop) [DecidablePred q] :
    (Finset.univ.filter fun i => q (w i)).val.map w =
      ((sorted (List.ofFn w)).filter q : List R) := by
  rw [Finset.filter_val, Multiset.coe_eq_coe.mpr ((sorted_perm (List.ofFn w)).filter q),
    ← Multiset.filter_coe, ← Fin.univ_val_map, Multiset.filter_map]
  rfl

theorem card_filter_univ (w : Fin n → R) (q : R → Prop) [DecidablePred q] :
    (Finset.univ.filter fun i => q (w i)).card = (sorted (List.ofFn w)).countP q := by
  have h := congrArg Multiset.card (map_filter_univ w q)
  rw [Multiset.card_map, Multiset.coe_card, ← List.countP_eq_length_filter] at h
  exact h

theorem sum_filter_univ [AddCommMonoid R] (w : Fin n → R) (q : R → Prop) [DecidablePred q] :
    ∑ i with q (w i), w i = ((sorted (List.ofFn w)).filter q).sum := by
  have h := congrArg Multiset.sum (map_filter_univ w q)
  rw [Multiset.sum_coe] at h
  exact h

theorem sum_sorted [AddCommMonoid R] (w : Fin n → R) :
    (sorted (List.ofFn w)).sum = ∑ i, w i := by
  rw [(sorted_perm (List.ofFn w)).sum_eq, List.sum_ofFn]

theorem mem_sorted {w : Fin n → R} {a : R} : a ∈ sorted (List.ofFn w) ↔ ∃ i, w i = a := by
  rw [(sorted_perm (List.ofFn w)).mem_iff, List.mem_ofFn]

end Row

end TTXla.Nucleus

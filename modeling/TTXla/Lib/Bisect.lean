import Mathlib

-- Binary search in a list in ascending order.
namespace TTXla.Bisect

variable {α : Type} [LinearOrder α]

-- `while lo < hi`. There is no result when the fuel does not last, or when a place is not in the
-- list.
def search (a : List α) (x : α) : Nat → Nat → Nat → Option Nat
  | 0, _, _ => none
  | fuel + 1, lo, hi =>
      if lo < hi then do
        let mid := (lo + hi) / 2
        let y ← a[mid]?
        if y < x then search a x fuel (mid + 1) hi else search a x fuel lo mid
      else some lo

def bisect_left (a : List α) (x : α) : Option Nat := search a x (a.length + 1) 0 a.length

-- Everything before `lo` is smaller, and nothing from `hi` on is.
structure Brackets (a : List α) (x : α) (lo hi : Nat) : Prop where
  le : lo ≤ hi
  inside : hi ≤ a.length
  below : ∀ i y, a[i]? = some y → i < lo → y < x
  above : ∀ i y, a[i]? = some y → hi ≤ i → x ≤ y

section Search

variable {a : List α} {x : α} {lo hi : Nat}

theorem sorted_le (ha : a.Pairwise (· < ·)) {i j : Nat} {y z : α} (hy : a[i]? = some y)
    (hz : a[j]? = some z) (hij : i ≤ j) : y ≤ z := by
  obtain ⟨hi, rfl⟩ := List.getElem?_eq_some_iff.mp hy
  obtain ⟨hj, rfl⟩ := List.getElem?_eq_some_iff.mp hz
  rcases Nat.lt_or_eq_of_le hij with hlt | rfl
  · exact le_of_lt (List.pairwise_iff_getElem.mp ha i j hi hj hlt)
  · exact le_refl _

theorem Brackets.smaller (h : Brackets a x lo hi) (ha : a.Pairwise (· < ·)) {mid : Nat} {y : α}
    (hmid : a[mid]? = some y) (hlt : mid < hi) (hy : y < x) : Brackets a x (mid + 1) hi := by
  refine ⟨by omega, h.inside, fun i z hz hi => ?_, h.above⟩
  exact lt_of_le_of_lt (sorted_le ha hz hmid (by omega)) hy

theorem Brackets.larger (h : Brackets a x lo hi) (ha : a.Pairwise (· < ·)) {mid : Nat} {y : α}
    (hmid : a[mid]? = some y) (hle : lo ≤ mid) (hlt : mid < hi) (hy : ¬y < x) :
    Brackets a x lo mid := by
  have hinside := h.inside
  refine ⟨hle, by omega, h.below, fun i z hz hi => ?_⟩
  exact le_trans (le_of_not_gt hy) (sorted_le ha hmid hz hi)

-- Each round keeps the brackets and shortens what is between them.
theorem search_spec (ha : a.Pairwise (· < ·)) {fuel : Nat} (h : Brackets a x lo hi)
    (hfuel : hi - lo < fuel) : ∃ i, search a x fuel lo hi = some i ∧ Brackets a x i i := by
  induction fuel generalizing lo hi with
  | zero => omega
  | succ fuel ih =>
      rw [search]
      by_cases hlt : lo < hi
      · have hinside := h.inside
        have hmid : (lo + hi) / 2 < a.length := by omega
        have hget := List.getElem?_eq_getElem hmid
        simp only [if_pos hlt, hget, Option.bind_eq_bind, Option.bind_some]
        by_cases hy : a[(lo + hi) / 2] < x
        · rw [if_pos hy]
          exact ih (h.smaller ha hget (by omega) hy) (by omega)
        · rw [if_neg hy]
          exact ih (h.larger ha hget (by omega) (by omega) hy) (by omega)
      · obtain rfl : lo = hi := Nat.le_antisymm h.le (Nat.le_of_not_lt hlt)
        rw [if_neg hlt]
        exact ⟨lo, rfl, h⟩

theorem bisect_left_spec (ha : a.Pairwise (· < ·)) (x : α) :
    ∃ i, bisect_left a x = some i ∧ Brackets a x i i := by
  refine search_spec ha ⟨Nat.zero_le _, Nat.le_refl _, fun i y _ h => ?_, fun i y hi h => ?_⟩
    (Nat.lt_succ_self _)
  · omega
  · obtain ⟨hlt, -⟩ := List.getElem?_eq_some_iff.mp hi
    omega

-- What stands at the place that is found is the least element that is large enough.
theorem bisect_left_least (ha : a.Pairwise (· < ·)) {x : α} (hx : ∃ y ∈ a, x ≤ y) :
    ∃ i y, bisect_left a x = some i ∧ a[i]? = some y ∧ y ∈ a ∧ x ≤ y ∧
      ∀ z ∈ a, x ≤ z → y ≤ z := by
  obtain ⟨i, hi, hbrackets⟩ := bisect_left_spec ha x
  obtain ⟨y, hy, hxy⟩ := hx
  obtain ⟨j, hj⟩ := List.mem_iff_getElem?.mp hy
  have hle : i ≤ j := by
    by_contra hlt
    exact absurd hxy (not_le_of_gt (hbrackets.below j y hj (by omega)))
  obtain ⟨hjlt, -⟩ := List.getElem?_eq_some_iff.mp hj
  have hget := List.getElem?_eq_getElem (show i < a.length by omega)
  refine ⟨i, a[i], hi, hget, List.getElem_mem _, hbrackets.above i _ hget (Nat.le_refl _),
    fun z hz hxz => ?_⟩
  obtain ⟨k, hk⟩ := List.mem_iff_getElem?.mp hz
  have hik : i ≤ k := by
    by_contra hlt
    exact absurd hxz (not_le_of_gt (hbrackets.below k z hk (by omega)))
  exact sorted_le ha hget hk hik

end Search

end TTXla.Bisect

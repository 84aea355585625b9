import TTXla.TTTorch.Decompositions.Upsample
import Mathlib.Tactic.FieldSimp
import Mathlib.Algebra.BigOperators.Ring.Finset

-- The weights that a position gives to the elements around it.
namespace TTXla.TTTorch.Decompositions.Upsample

open Tensor

section Tent

theorem tent_of_le {x : ℚ} {i : Nat} (h : (i : ℚ) ≤ x) : tent x i = max (1 - (x - i)) 0 := by
  unfold tent relu
  rw [abs_abs, abs_of_nonneg (by linarith)]

theorem tent_of_ge {x : ℚ} {i : Nat} (h : x ≤ i) : tent x i = max (1 - (i - x)) 0 := by
  unfold tent relu
  rw [abs_abs, abs_of_nonpos (by linarith), neg_sub]

-- The two neighbours of a position share the weight.
theorem tent_eq {x : ℚ} (hx : 0 ≤ x) (i : Nat) :
    tent x i = (if i = ⌊x⌋₊ then 1 - (x - ⌊x⌋₊) else 0) +
      (if i = ⌊x⌋₊ + 1 then x - ⌊x⌋₊ else 0) := by
  have hle : (⌊x⌋₊ : ℚ) ≤ x := Nat.floor_le hx
  have hlt : x < ⌊x⌋₊ + 1 := Nat.lt_floor_add_one x
  obtain h | rfl | h := Nat.lt_trichotomy i ⌊x⌋₊
  · have hi : (i : ℚ) + 1 ≤ ⌊x⌋₊ := by exact_mod_cast h
    rw [tent_of_le (by linarith), max_eq_right (by linarith), if_neg (by omega), if_neg (by omega),
      add_zero]
  · rw [tent_of_le hle, max_eq_left (by linarith), if_pos rfl, if_neg (by omega), add_zero]
  · rw [if_neg (by omega), zero_add]
    by_cases hsucc : i = ⌊x⌋₊ + 1
    · have hi : (i : ℚ) = ⌊x⌋₊ + 1 := by exact_mod_cast hsucc
      rw [tent_of_ge (by linarith), if_pos hsucc, hi, max_eq_left (by linarith)]
      ring
    · have hi : (⌊x⌋₊ : ℚ) + 2 ≤ i := by exact_mod_cast (by omega : ⌊x⌋₊ + 2 ≤ i)
      rw [tent_of_ge (by linarith), if_neg hsucc, max_eq_right (by linarith)]

theorem floor_lt_size {n : Nat} {x : ℚ} (hx : 0 ≤ x) (hn : x ≤ n - 1) : ⌊x⌋₊ < n := by
  have hle : (⌊x⌋₊ : ℚ) ≤ x := Nat.floor_le hx
  have : (⌊x⌋₊ : ℚ) < n := by linarith
  exact_mod_cast this

-- A position within the elements is the mean of the elements that it weighs.
theorem sum_mul_tent {n : Nat} {x : ℚ} (hx : 0 ≤ x) (hn : x ≤ n - 1) (g : Nat → ℚ) :
    ∑ i ∈ Finset.range n, g i * tent x i =
      g ⌊x⌋₊ * (1 - (x - ⌊x⌋₊)) + g (⌊x⌋₊ + 1) * (x - ⌊x⌋₊) := by
  have hlt := floor_lt_size hx hn
  have hle : (⌊x⌋₊ : ℚ) ≤ x := Nat.floor_le hx
  simp only [tent_eq hx, mul_add, mul_ite, mul_zero, Finset.sum_add_distrib, Finset.sum_ite_eq',
    Finset.mem_range]
  rw [if_pos hlt]
  congr 1
  split_ifs with hsucc
  · rfl
  · -- at the last element, the next one has no weight
    have hlast : (n : ℚ) = ⌊x⌋₊ + 1 := by exact_mod_cast (by omega : n = ⌊x⌋₊ + 1)
    have : x = ⌊x⌋₊ := by linarith
    rw [← this, sub_self, mul_zero]

theorem sum_tent {n : Nat} {x : ℚ} (hx : 0 ≤ x) (hn : x ≤ n - 1) :
    ∑ i ∈ Finset.range n, tent x i = 1 := by
  have := sum_mul_tent hx hn fun _ => 1
  simp only [one_mul] at this
  rw [this]
  ring

theorem mean_tent {n : Nat} {x : ℚ} (hx : 0 ≤ x) (hn : x ≤ n - 1) :
    ∑ i ∈ Finset.range n, (i : ℚ) * tent x i = x := by
  rw [sum_mul_tent hx hn, Nat.cast_add, Nat.cast_one]
  ring

-- The weights tell the positions apart.
theorem tent_injective {n : Nat} {x y : ℚ} (hx : 0 ≤ x) (hxn : x ≤ n - 1) (hy : 0 ≤ y)
    (hyn : y ≤ n - 1) (h : ∀ i < n, tent x i = tent y i) : x = y := by
  calc x = ∑ i ∈ Finset.range n, (i : ℚ) * tent x i := (mean_tent hx hxn).symm
    _ = ∑ i ∈ Finset.range n, (i : ℚ) * tent y i :=
        Finset.sum_congr rfl fun i hi => by rw [h i (Finset.mem_range.mp hi)]
    _ = y := mean_tent hy hyn

end Tent

section Clamped

-- A position that is moved to the border elements.
def clamped (n : Nat) (x : ℚ) : ℚ := min (max x 0) (n - 1)

theorem clamped_nonneg {n : Nat} (hn : 0 < n) (x : ℚ) : 0 ≤ clamped n x := by
  have : (1 : ℚ) ≤ n := by exact_mod_cast hn
  exact le_min (le_max_right _ _) (by linarith)

theorem clamped_le (n : Nat) (x : ℚ) : clamped n x ≤ n - 1 := min_le_right _ _

theorem clamped_of_mem {n : Nat} {x : ℚ} (hx : 0 ≤ x) (hn : x ≤ n - 1) : clamped n x = x := by
  unfold clamped
  rw [max_eq_left hx, min_eq_left hn]

theorem clamped_of_neg {n : Nat} (hn : 0 < n) {x : ℚ} (hx : x ≤ 0) : clamped n x = 0 := by
  have : (1 : ℚ) ≤ n := by exact_mod_cast hn
  unfold clamped
  rw [max_eq_right hx, min_eq_left (by linarith)]

theorem clamped_of_gt {n : Nat} (hn : 0 < n) {x : ℚ} (hx : (n : ℚ) - 1 ≤ x) :
    clamped n x = n - 1 := by
  have : (1 : ℚ) ≤ n := by exact_mod_cast hn
  unfold clamped
  rw [max_eq_left (by linarith), min_eq_right hx]

-- A single element that has weight takes all of it.
theorem single_weight {n j : Nat} (hj : j < n) {x : ℚ} (hpos : 0 < tent x j)
    (hzero : ∀ i < n, i ≠ j → tent x i = 0) {i : Nat} (hi : i < n) :
    tent x i / (if ∑ i ∈ Finset.range n, tent x i ≠ 0 then ∑ i ∈ Finset.range n, tent x i else 1) =
      if i = j then 1 else 0 := by
  have htotal : ∑ i ∈ Finset.range n, tent x i = tent x j :=
    Finset.sum_eq_single_of_mem j (Finset.mem_range.mpr hj) fun i hi hne =>
      hzero i (Finset.mem_range.mp hi) hne
  rw [htotal, if_pos hpos.ne']
  split_ifs with h
  · rw [h, div_self hpos.ne']
  · rw [hzero i hi h, zero_div]

-- Half an element beyond the border, the weights are those of the border.
theorem linear_weights_eq {n : Nat} (hn : 0 < n) {x : ℚ} (hlow : -1 / 2 ≤ x)
    (hhigh : x ≤ n - 1 / 2) {i : Nat} (hi : i < n) :
    linear_weights n x i = tent (clamped n x) i := by
  have hcast : (1 : ℚ) ≤ n := by exact_mod_cast hn
  unfold linear_weights
  rw [if_pos ⟨hlow, hhigh⟩]
  by_cases hneg : x < 0
  · have hzero : tent x 0 = 1 + x := by
      rw [tent_of_ge (by simpa using hneg.le), max_eq_left (by norm_num; linarith)]
      norm_num
    rw [single_weight hn (by rw [hzero]; linarith) (fun j hj hne => ?_) hi,
      clamped_of_neg hn hneg.le, tent_eq (le_refl 0)]
    · simp
    · have hj : (1 : ℚ) ≤ j := by exact_mod_cast Nat.one_le_iff_ne_zero.mpr hne
      rw [tent_of_ge (by linarith), max_eq_right (by linarith)]
  · by_cases hbeyond : (n : ℚ) - 1 < x
    · have hlast : ((n - 1 : Nat) : ℚ) = n - 1 := by rw [Nat.cast_sub hn, Nat.cast_one]
      have hpos : tent x (n - 1) = n - x := by
        rw [tent_of_le (by rw [hlast]; exact hbeyond.le), hlast, max_eq_left (by linarith)]
        ring
      rw [single_weight (Nat.sub_lt hn Nat.one_pos) (by rw [hpos]; linarith)
        (fun j hj hne => ?_) hi, clamped_of_gt hn hbeyond.le, ← hlast, tent_eq (Nat.cast_nonneg _)]
      · simp
      · have hj : (j : ℚ) + 1 ≤ ((n - 1 : Nat) : ℚ) := by
          exact_mod_cast (by omega : j + 1 ≤ n - 1)
        rw [tent_of_le (by linarith), max_eq_right (by linarith)]
    · have hx : 0 ≤ x := by linarith
      rw [sum_tent hx (by linarith), if_pos one_ne_zero, div_one, clamped_of_mem hx (by linarith)]

end Clamped

end TTXla.TTTorch.Decompositions.Upsample

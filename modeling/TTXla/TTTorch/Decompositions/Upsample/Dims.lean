import TTXla.TTTorch.Decompositions.Upsample.Weights

-- The matrices of one dimension, and what torch does along it.
namespace TTXla.TTTorch.Decompositions.Upsample

open Tensor

-- The position of an output element among the input elements, as the decomposition has it.
def position (align_corners : Bool) (d : Dim) (o : Nat) : ℚ :=
  if align_corners then o * (((d.input_size : ℚ) - 1) / ((d.output_size : ℚ) - 1))
  else (o + 1 / 2) * (d.input_size / d.output_size) - 1 / 2

def linear_matrix (align_corners : Bool) (d : Dim) (i o : Nat) : ℚ :=
  tent (clamped d.input_size (position align_corners d o)) i

def torch_linear_matrix (align_corners : Bool) (d : Dim) (i o : Nat) : ℚ :=
  tent (clamped d.input_size (source_index align_corners d o)) i

-- The decomposition divides by no zero.
def Divides (align_corners : Bool) (d : Dim) : Prop :=
  d.input_size = 1 ∨ align_corners = false ∨ 1 < d.output_size

section Linear

variable {align_corners : Bool} {d : Dim}

theorem clamped_one (x : ℚ) : clamped 1 x = 0 := by
  unfold clamped
  rw [Nat.cast_one, sub_self, min_eq_right (le_max_right _ _)]

theorem sample_f_align {n m : Nat} (hn : 1 < n) (hm : 1 < m) (o : Nat) :
    sample_f (((m : ℚ) - 1) / (n - 1)) (1 / 2 - ((m : ℚ) - 1) / (n - 1) / 2) o =
      o * (((n : ℚ) - 1) / (m - 1)) := by
  have hn : (n : ℚ) - 1 ≠ 0 := by
    have : (1 : ℚ) < n := by exact_mod_cast hn
    linarith
  have hm : (m : ℚ) - 1 ≠ 0 := by
    have : (1 : ℚ) < m := by exact_mod_cast hm
    linarith
  unfold sample_f
  field_simp
  ring

theorem sample_f_ratio (n m o : Nat) :
    sample_f ((m : ℚ) / n) 0 o = (o + 1 / 2) * ((n : ℚ) / m) - 1 / 2 := by
  unfold sample_f
  simp only [zero_mul, sub_zero, one_div_div]

-- Half an element beyond the border at most.
theorem position_mem (hin : 0 < d.input_size) (hout : 0 < d.output_size)
    (hdivides : align_corners = false ∨ 1 < d.output_size) {o : Nat} (ho : o < d.output_size) :
    -1 / 2 ≤ position align_corners d o ∧ position align_corners d o ≤ d.input_size - 1 / 2 := by
  have hn : (1 : ℚ) ≤ d.input_size := by exact_mod_cast hin
  have ho : (o : ℚ) + 1 ≤ d.output_size := by exact_mod_cast ho
  have ho0 : (0 : ℚ) ≤ o := Nat.cast_nonneg o
  unfold position
  cases align_corners with
  | false =>
      rw [if_neg Bool.false_ne_true]
      have hm : (0 : ℚ) < d.output_size := by exact_mod_cast hout
      have hratio : 0 ≤ (d.input_size : ℚ) / d.output_size := by positivity
      have hall : (d.output_size : ℚ) * (d.input_size / d.output_size) = d.input_size := by
        field_simp
      constructor
      · have : 0 ≤ ((o : ℚ) + 1 / 2) * (d.input_size / d.output_size) := by positivity
        linarith
      · have := mul_le_mul_of_nonneg_right (by linarith : (o : ℚ) + 1 / 2 ≤ d.output_size) hratio
        linarith
  | true =>
      rw [if_pos rfl]
      have hm : (1 : ℚ) < d.output_size := by
        exact_mod_cast hdivides.resolve_left (by simp)
      have hratio : 0 ≤ ((d.input_size : ℚ) - 1) / (d.output_size - 1) :=
        div_nonneg (by linarith) (by linarith)
      have hall : ((d.output_size : ℚ) - 1) * ((d.input_size - 1) / (d.output_size - 1)) =
          d.input_size - 1 := by
        have : (d.output_size : ℚ) - 1 ≠ 0 := by linarith
        field_simp
      constructor
      · have : 0 ≤ (o : ℚ) * ((d.input_size - 1) / (d.output_size - 1)) :=
          mul_nonneg ho0 hratio
        linarith
      · have := mul_le_mul_of_nonneg_right (by linarith : (o : ℚ) ≤ d.output_size - 1) hratio
        linarith

-- What the scale and the translation come to.
theorem sample_position (hin : 1 < d.input_size) (hout : 0 < d.output_size)
    (hdivides : align_corners = false ∨ 1 < d.output_size) :
    (linear_scale d.input_size d.output_size (d.output_size / d.input_size) align_corners).1 ≠ 0 ∧
      ∀ o, sample_f
        (linear_scale d.input_size d.output_size (d.output_size / d.input_size) align_corners).1
        (linear_scale d.input_size d.output_size (d.output_size / d.input_size) align_corners).2 o =
          position align_corners d o := by
  have hn : (1 : ℚ) < d.input_size := by exact_mod_cast hin
  have hm : (0 : ℚ) < d.output_size := by exact_mod_cast hout
  unfold linear_scale position
  cases align_corners with
  | false =>
      simp only [Bool.false_eq_true, if_false]
      exact ⟨(div_pos hm (by linarith)).ne', sample_f_ratio _ _⟩
  | true =>
      have hm : 1 < d.output_size := hdivides.resolve_left (by simp)
      have hm' : (1 : ℚ) < d.output_size := by exact_mod_cast hm
      simp only [if_true]
      exact ⟨(div_pos (by linarith) (by linarith)).ne', sample_f_align hin hm⟩

theorem ratio_weight_ok (hin : 0 < d.input_size) (hout : 0 < d.output_size)
    (h : Divides align_corners d) :
    ∃ w, ratio_weight align_corners d = .ok w ∧ w.shape = [d.input_size, d.output_size] ∧
      ∀ i < d.input_size, ∀ o < d.output_size,
        w.get [i, o] = linear_matrix align_corners d i o := by
  unfold ratio_weight compute_linear_weight
  rw [if_neg hin.ne']
  by_cases hone : d.input_size = 1
  · rw [if_pos hone]
    refine ⟨_, rfl, by rw [hone]; rfl, fun i hi o ho => ?_⟩
    have hi : i = 0 := by omega
    unfold linear_matrix
    rw [hone, clamped_one, tent_eq (le_refl 0), hi]
    simp [ones, full]
  · have hdivides := h.resolve_left hone
    obtain ⟨hscale, hsample⟩ := sample_position (by omega) hout hdivides
    rw [if_neg hone]
    simp only
    rw [if_neg hscale]
    refine ⟨_, rfl, rfl, fun i hi o ho => ?_⟩
    obtain ⟨hlow, hhigh⟩ := position_mem hin hout hdivides ho
    simp only [matrix, List.getD_cons_zero, List.getD_cons_succ]
    rw [hsample, linear_weights_eq hin hlow hhigh hi]
    rfl

theorem ratio_weight_error (hin : 0 < d.input_size) (hout : 0 < d.output_size)
    (h : ¬Divides align_corners d) : ratio_weight align_corners d = .error .ZeroDivisionError := by
  unfold Divides at h
  simp only [not_or, Bool.not_eq_false] at h
  obtain ⟨hone, rfl, hout'⟩ := h
  have hm : d.output_size = 1 := by omega
  unfold ratio_weight compute_linear_weight linear_scale
  rw [if_neg hin.ne', if_neg hone, hm]
  simp

-- The two elements that torch reads are the neighbours of the clamped position.
theorem torch_linear_at_along (hin : 0 < d.input_size) {axis : Nat} {t : Tensor ℚ}
    (hdim : t.shape.getD axis 0 = d.input_size) :
    torch_linear_at align_corners axis d t =
      t.along axis d.output_size (torch_linear_matrix align_corners d) := by
  unfold torch_linear_at along
  simp only [Tensor.mk.injEq, true_and]
  funext is
  rw [hdim]
  unfold torch_linear_matrix
  have hx : 0 ≤ source_index align_corners d (is.getD axis 0) := le_max_right _ _
  generalize source_index align_corners d (is.getD axis 0) = x at hx ⊢
  have hlast : ((d.input_size - 1 : Nat) : ℚ) = d.input_size - 1 := by
    rw [Nat.cast_sub hin, Nat.cast_one]
  rw [sum_mul_tent (clamped_nonneg hin x) (clamped_le _ x) fun k => t.get (is.set axis k)]
  by_cases hinside : x ≤ d.input_size - 1
  · have hfloor := floor_lt_size hx hinside
    have hle : (⌊x⌋₊ : ℚ) ≤ x := Nat.floor_le hx
    have hlt : x < ⌊x⌋₊ + 1 := Nat.lt_floor_add_one x
    have hshare : min (max (x - ⌊x⌋₊) 0) 1 = x - ⌊x⌋₊ := by
      rw [max_eq_left (by linarith), min_eq_left (by linarith)]
    rw [clamped_of_mem hx hinside, min_eq_left (by omega : ⌊x⌋₊ ≤ d.input_size - 1), hshare]
    by_cases hsucc : ⌊x⌋₊ + 1 ≤ d.input_size - 1
    · rw [min_eq_left hsucc]
      ring
    · -- at the last element both neighbours are the element itself
      have hcast : ((⌊x⌋₊ : Nat) : ℚ) = d.input_size - 1 := by
        rw [← hlast]
        exact_mod_cast (by omega : ⌊x⌋₊ = d.input_size - 1)
      have hx' : x - ⌊x⌋₊ = 0 := by linarith
      rw [hx']
      ring
  · have hbeyond : (d.input_size : ℚ) - 1 ≤ x := by linarith
    have hfloor : d.input_size - 1 ≤ ⌊x⌋₊ := by
      refine Nat.le_floor ?_
      rw [hlast]
      exact hbeyond
    rw [clamped_of_gt hin hbeyond, min_eq_right hfloor, min_eq_right (by omega), ← hlast,
      Nat.floor_natCast, sub_self, sub_self]
    ring

theorem position_clamped (hin : 0 < d.input_size) (align_corners : Bool) (o : Nat) :
    0 ≤ clamped d.input_size (position align_corners d o) ∧
      clamped d.input_size (position align_corners d o) ≤ d.input_size - 1 :=
  ⟨clamped_nonneg hin _, clamped_le _ _⟩

theorem linear_matrix_sum (hin : 0 < d.input_size) (o : Nat) :
    ∑ i ∈ Finset.range d.input_size, linear_matrix align_corners d i o = 1 :=
  sum_tent (clamped_nonneg hin _) (clamped_le _ _)

theorem torch_linear_matrix_sum (hin : 0 < d.input_size) (o : Nat) :
    ∑ i ∈ Finset.range d.input_size, torch_linear_matrix align_corners d i o = 1 :=
  sum_tent (clamped_nonneg hin _) (clamped_le _ _)

-- At most two weights of an output element are not 0, those of two neighbours.
theorem linear_matrix_adjacent (hin : 0 < d.input_size) (o : Nat) :
    ∃ p, ∀ i, linear_matrix align_corners d i o ≠ 0 → i = p ∨ i = p + 1 := by
  refine ⟨⌊clamped d.input_size (position align_corners d o)⌋₊, fun i hi => ?_⟩
  unfold linear_matrix at hi
  rw [tent_eq (clamped_nonneg hin _)] at hi
  by_contra hne
  rw [not_or] at hne
  rw [if_neg hne.1, if_neg hne.2, add_zero] at hi
  exact hi rfl

theorem linear_matrices_iff (hin : 0 < d.input_size) :
    (∀ i < d.input_size, ∀ o < d.output_size,
      linear_matrix align_corners d i o = torch_linear_matrix align_corners d i o) ↔
    ∀ o < d.output_size, clamped d.input_size (position align_corners d o) =
      clamped d.input_size (source_index align_corners d o) := by
  constructor
  · intro h o ho
    exact tent_injective (clamped_nonneg hin _) (clamped_le _ _) (clamped_nonneg hin _)
      (clamped_le _ _) fun i hi => h i hi o ho
  · intro h i hi o ho
    unfold linear_matrix torch_linear_matrix
    rw [h o ho]

theorem clamped_max (n : Nat) (x : ℚ) : clamped n (max x 0) = clamped n x := by
  unfold clamped
  rw [max_eq_left (le_max_right x 0)]

theorem clamped_align (hout : 1 < d.output_size) (o : Nat) :
    clamped d.input_size (position true d o) = clamped d.input_size (source_index true d o) := by
  unfold position source_index area_pixel_compute_scale
  simp only [if_true]
  rw [if_pos hout, clamped_max, mul_comm]

-- Two ratios that place every output element alike are equal, unless there is one input element.
theorem ratio_eq_of_clamped {n m : Nat} (hn : 1 < n) (hm : 0 < m) {b : ℚ}
    (h : ∀ o < m, clamped n (((o : ℚ) + 1 / 2) * (n / m) - 1 / 2) =
      clamped n (b * (o + 1 / 2) - 1 / 2)) : (n : ℚ) / m = b := by
  have hn' : (2 : ℚ) ≤ n := by exact_mod_cast hn
  have hm' : (1 : ℚ) ≤ m := by exact_mod_cast hm
  -- a position strictly between the border elements is not moved
  have hinside : ∀ o < m, 0 < ((o : ℚ) + 1 / 2) * (n / m) - 1 / 2 →
      ((o : ℚ) + 1 / 2) * (n / m) - 1 / 2 < n - 1 → (n : ℚ) / m = b := by
    intro o ho hlow hhigh
    have heq := h o ho
    rw [clamped_of_mem hlow.le hhigh.le] at heq
    have hpos : (0 : ℚ) < o + 1 / 2 := by positivity
    have hsrc : ((o : ℚ) + 1 / 2) * (n / m) = b * (o + 1 / 2) := by
      by_cases hneg : b * ((o : ℚ) + 1 / 2) - 1 / 2 ≤ 0
      · rw [clamped_of_neg (by omega) hneg] at heq
        linarith
      · by_cases hbeyond : (n : ℚ) - 1 ≤ b * ((o : ℚ) + 1 / 2) - 1 / 2
        · rw [clamped_of_gt (by omega) hbeyond] at heq
          linarith
        · rw [clamped_of_mem (by linarith) (by linarith)] at heq
          linarith
    refine mul_left_cancel₀ hpos.ne' ?_
    rw [hsrc, mul_comm]
  have hmid : ∀ o : Nat, ((o : ℚ) + 1 / 2) * (n / m) - 1 / 2 =
      ((2 * o + 1) * n - m) / (2 * m) := by
    intro o
    field_simp
  have hm0 : (0 : ℚ) < 2 * m := by linarith
  by_cases hsmall : n = 2 ∧ m = 2
  · -- both output elements lie on the border elements
    obtain ⟨rfl, rfl⟩ := hsmall
    have h0 : clamped 2 (b * (1 / 2) - 1 / 2) = 0 := by
      have := h 0 (by omega)
      rw [clamped_of_neg (by omega) (by norm_num)] at this
      simpa using this.symm
    have h1 : clamped 2 (b * (1 + 1 / 2) - 1 / 2) = 1 := by
      have := h 1 (by omega)
      rw [clamped_of_gt (by omega) (by norm_num)] at this
      norm_num at this ⊢
      exact this.symm
    have hle : b ≤ 1 := by
      by_contra hgt
      by_cases hbeyond : ((2 : Nat) : ℚ) - 1 ≤ b * (1 / 2) - 1 / 2
      · rw [clamped_of_gt (by omega) hbeyond] at h0
        norm_num at h0
      · rw [clamped_of_mem (by linarith) (by linarith)] at h0
        linarith
    have hge : 1 ≤ b := by
      by_contra hlt
      by_cases hneg : b * (1 + 1 / 2) - 1 / 2 ≤ 0
      · rw [clamped_of_neg (by omega) hneg] at h1
        norm_num at h1
      · rw [clamped_of_mem (by linarith) (by norm_num; linarith)] at h1
        linarith
    rw [le_antisymm hle hge]
    norm_num
  · -- the middle output element
    refine hinside (m / 2) (by omega) ?_ ?_
    · rw [hmid]
      refine div_pos ?_ hm0
      have : (m : ℚ) ≤ 2 * (m / 2 : Nat) + 1 := by exact_mod_cast (by omega : m ≤ 2 * (m / 2) + 1)
      nlinarith
    · rw [hmid, div_lt_iff₀ hm0]
      obtain ⟨k, rfl | rfl⟩ := Nat.even_or_odd' m
      · have hk : 2 * k / 2 = k := by omega
        have hprod : (1 : ℚ) < (n - 1) * (2 * k - 1) := by
          have hn1 : (1 : ℚ) ≤ n - 1 := by linarith
          have hk1 : (1 : ℚ) ≤ k := by exact_mod_cast (by omega : 1 ≤ k)
          by_cases hn2 : n = 2
          · have : (2 : ℚ) ≤ k := by exact_mod_cast (by omega : 2 ≤ k)
            rw [hn2]
            norm_num
            linarith
          · have : (3 : ℚ) ≤ n := by exact_mod_cast (by omega : 3 ≤ n)
            nlinarith
        rw [hk]
        push_cast
        nlinarith
      · have hk : (2 * k + 1) / 2 = k := by omega
        rw [hk]
        push_cast
        have : (0 : ℚ) ≤ k := Nat.cast_nonneg k
        nlinarith

-- Where the decomposition and torch place the output elements alike.
theorem linear_agree_iff (hin : 0 < d.input_size) (hout : 0 < d.output_size)
    (hdivides : Divides align_corners d) :
    (∀ o < d.output_size, clamped d.input_size (position align_corners d o) =
      clamped d.input_size (source_index align_corners d o)) ↔
    d.input_size = 1 ∨ align_corners = true ∨
      compute_scales_value d = d.input_size / d.output_size := by
  constructor
  · intro h
    by_cases hone : d.input_size = 1
    · exact .inl hone
    · cases halign : align_corners with
      | true => exact .inr (.inl rfl)
      | false =>
          subst halign
          refine .inr (.inr (ratio_eq_of_clamped (by omega) hout fun o ho => ?_).symm)
          have := h o ho
          unfold position source_index area_pixel_compute_scale at this
          simpa [clamped_max] using this
  · rintro (hone | halign | hscale) o ho
    · rw [hone, clamped_one, clamped_one]
    · subst halign
      obtain hone | hfalse | hgt := hdivides
      · rw [hone, clamped_one, clamped_one]
      · exact absurd hfalse (by simp)
      · exact clamped_align hgt o
    · cases halign : align_corners with
      | true =>
          subst halign
          obtain hone | hfalse | hgt := hdivides
          · rw [hone, clamped_one, clamped_one]
          · exact absurd hfalse (by simp)
          · exact clamped_align hgt o
      | false =>
          unfold position source_index area_pixel_compute_scale
          simp only [Bool.false_eq_true, if_false]
          rw [hscale, clamped_max, mul_comm]

end Linear

section Nearest

variable {d : Dim}

-- The matrix that picks one element for each output element.
def pick (index : Nat → Nat) (i o : Nat) : ℚ := if i = index o then 1 else 0

theorem pick_sum {index : Nat → Nat} {n o : Nat} (h : index o < n) :
    ∑ i ∈ Finset.range n, pick index i o = 1 := by
  unfold pick
  rw [Finset.sum_ite_eq', if_pos (Finset.mem_range.mpr h)]

theorem pick_eq_iff {index index' : Nat → Nat} {n m : Nat} (h : ∀ o < m, index o < n) :
    (∀ i < n, ∀ o < m, pick index i o = pick index' i o) ↔ ∀ o < m, index o = index' o := by
  constructor
  · intro heq o ho
    by_contra hne
    have := heq (index o) (h o ho) o ho
    unfold pick at this
    rw [if_pos rfl, if_neg hne] at this
    exact one_ne_zero this
  · intro heq i _ o ho
    unfold pick
    rw [heq o ho]

theorem nearest_index_lt (hin : 0 < d.input_size) (o : Nat) : nearest_index d o < d.input_size :=
  Nat.lt_of_le_of_lt (Nat.min_le_right _ _) (Nat.sub_lt hin Nat.one_pos)

theorem torch_nearest_at_along (hin : 0 < d.input_size) {axis : Nat} {t : Tensor ℚ}
    (hdim : t.shape.getD axis 0 = d.input_size) :
    torch_nearest_at axis d t = t.along axis d.output_size (pick (nearest_index d)) := by
  unfold torch_nearest_at along pick
  simp only [Tensor.mk.injEq, true_and]
  funext is
  rw [hdim]
  simp only [mul_ite, mul_one, mul_zero, Finset.sum_ite_eq', Finset.mem_range,
    nearest_index_lt hin, if_true]

-- The index by the ratio of the sizes.
def ratio_index (d : Dim) (o : Nat) : Nat := ⌊(o : ℚ) * (d.input_size / d.output_size)⌋₊

theorem ratio_index_lt (hin : 0 < d.input_size) {o : Nat} (ho : o < d.output_size) :
    ratio_index d o < d.input_size := by
  have hn : (0 : ℚ) < d.input_size := by exact_mod_cast hin
  have ho' : (o : ℚ) < d.output_size := by exact_mod_cast ho
  have hm : (0 : ℚ) < d.output_size := lt_of_le_of_lt (Nat.cast_nonneg o) ho'
  unfold ratio_index
  rw [Nat.floor_lt (by positivity), ← mul_div_assoc, div_lt_iff₀ hm, mul_comm]
  exact mul_lt_mul_of_pos_left ho' hn

theorem one_hot_weight {n m : Nat} (scale : ℚ) (hscale : 0 ≤ scale) (index : Nat → Nat)
    (hindex : ∀ o < m, ⌊(o : ℚ) * scale⌋₊ = index o) (hlt : ∀ o < m, index o < n) :
    (if ∀ o < m, 0 ≤ ⌊(o : ℚ) * scale⌋ ∧ ⌊(o : ℚ) * scale⌋ < n then
      Except.ok (matrix n m fun i o => if ⌊(o : ℚ) * scale⌋ = (i : Int) then (1 : ℚ) else 0)
    else .error PyError.RuntimeError) =
      .ok (matrix n m fun i o => if ⌊(o : ℚ) * scale⌋ = (i : Int) then 1 else 0) ∧
    ∀ i < n, ∀ o < m,
      (matrix n m fun i o => if ⌊(o : ℚ) * scale⌋ = (i : Int) then (1 : ℚ) else 0).get [i, o] =
        pick index i o := by
  have hfloor : ∀ o < m, ⌊(o : ℚ) * scale⌋ = (index o : Int) := by
    intro o ho
    rw [← hindex o ho]
    exact (Int.natCast_floor_eq_floor (by positivity)).symm
  constructor
  · rw [if_pos]
    intro o ho
    have := hlt o ho
    rw [hfloor o ho]
    omega
  · intro i _ o ho
    simp only [matrix, List.getD_cons_zero, List.getD_cons_succ]
    rw [hfloor o ho]
    unfold pick
    simp only [Nat.cast_inj, eq_comm]

theorem nearest_weight_ratio (hin : 0 < d.input_size) (hout : 0 < d.output_size)
    (hscale : d.scale = none) :
    ∃ w, nearest_weight d = .ok w ∧ w.shape = [d.input_size, d.output_size] ∧
      ∀ i < d.input_size, ∀ o < d.output_size, w.get [i, o] = pick (ratio_index d) i o := by
  have hn : (0 : ℚ) < d.input_size := by exact_mod_cast hin
  have hm : (0 : ℚ) < d.output_size := by exact_mod_cast hout
  obtain ⟨hok, hget⟩ := one_hot_weight ((d.input_size : ℚ) / d.output_size)
    (div_pos hn hm).le (ratio_index d) (fun o _ => rfl) fun o ho => ratio_index_lt hin ho
  refine ⟨_, ?_, rfl, hget⟩
  rw [← hok]
  unfold nearest_weight compute_nearest_weight nearest_scale
  rw [hscale]
  simp only
  rw [if_neg hout.ne']
  rfl

-- With a factor, the output size is rounded down, so no index is beyond the last element.
theorem factor_index_lt {s : ℚ} (hs : 0 < s) (hfactor : (d.output_size : ℚ) ≤ d.input_size * s)
    {o : Nat} (ho : o < d.output_size) : ⌊(o : ℚ) * (1 / s)⌋₊ < d.input_size := by
  have ho' : (o : ℚ) < d.output_size := by exact_mod_cast ho
  rw [Nat.floor_lt (by positivity), mul_one_div, div_lt_iff₀ hs]
  linarith

theorem nearest_weight_factor {s : ℚ} (hs : 0 < s) (hscale : d.scale = some s)
    (hfactor : (d.output_size : ℚ) ≤ d.input_size * s) :
    ∃ w, nearest_weight d = .ok w ∧ w.shape = [d.input_size, d.output_size] ∧
      ∀ i < d.input_size, ∀ o < d.output_size, w.get [i, o] = pick (nearest_index d) i o := by
  have hvalue : compute_scales_value d = 1 / s := by
    unfold compute_scales_value
    rw [hscale]
    exact if_pos hs
  have hindex : ∀ o < d.output_size, ⌊(o : ℚ) * (1 / s)⌋₊ = nearest_index d o := by
    intro o ho
    have := factor_index_lt hs hfactor ho
    unfold nearest_index
    rw [hvalue, min_eq_left (by omega)]
  obtain ⟨hok, hget⟩ := one_hot_weight (1 / s) (by positivity) (nearest_index d) hindex
    fun o ho => hindex o ho ▸ factor_index_lt hs hfactor ho
  refine ⟨_, ?_, rfl, hget⟩
  rw [← hok]
  unfold nearest_weight compute_nearest_weight nearest_scale
  rw [hscale]
  simp only
  rw [if_neg hs.ne']
  rfl

end Nearest

end TTXla.TTTorch.Decompositions.Upsample

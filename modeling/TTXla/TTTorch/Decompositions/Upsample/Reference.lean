import TTXla.TTTorch.Decompositions.Upsample.Dims
import TTXla.Lib.Excepts

-- The decompositions against torch's own definitions.
namespace TTXla.TTTorch.Decompositions.Upsample

open Tensor

inductive Mode where
  | linear (align_corners : Bool)
  | nearest

-- How the sizes are given: to the `vec` overload one way or the other, or to the default one.
inductive Sizes where
  | size (output_size : List Nat)
  | factors (scale_factors : List ℚ)
  | default (output_size : List Nat) (scales_h scales_w scales_d : Option ℚ)

def decomposed (mode : Mode) (sizes : Sizes) (input : Tensor ℚ) : Except PyError (Tensor ℚ) :=
  match mode, sizes with
  | .linear align_corners, .size osize => upsample_linear_vec input (some osize) align_corners none
  | .linear align_corners, .factors fs => upsample_linear_vec input none align_corners (some fs)
  | .linear align_corners, .default osize h w d =>
      upsample_linear_default input osize align_corners h w d
  | .nearest, .size osize => upsample_nearest_vec input (some osize) none
  | .nearest, .factors fs => upsample_nearest_vec input none (some fs)
  | .nearest, .default osize h w d => upsample_nearest_default input osize h w d

-- The sizes and the scales that torch uses.
def torch_dims (ins : List Nat) : Sizes → List Dim
  | .size osize => zip_dims ins osize (List.replicate osize.length none)
  | .factors fs => zip_dims ins (List.zipWith scaled_size ins fs) (fs.map some)
  | .default osize h w d => zip_dims ins osize [h, w, d]

def torch_step : Mode → Nat → Dim → Tensor ℚ → Tensor ℚ
  | .linear align_corners => torch_linear_at align_corners
  | .nearest => torch_nearest_at

def torch_upsample (mode : Mode) (sizes : Sizes) (input : Tensor ℚ) : Tensor ℚ :=
  torch_axes (torch_step mode) 2 (torch_dims (input.shape.drop 2) sizes) input

-- As many sizes as there are spatial dimensions.
def Sizes.Fit (ins : List Nat) : Sizes → Prop
  | .size osize => osize.length = ins.length
  | .factors fs => fs.length = ins.length
  | .default osize _ _ _ => osize.length = ins.length ∧ ins.length ≤ 3

-- What torch accepts: batch, channels and at least one spatial dimension, none of them empty.
structure Accepted (lead ins : List Nat) (sizes : Sizes) : Prop where
  rank : lead.length = 2
  spatial : ins ≠ []
  fit : sizes.Fit ins
  input_pos : ∀ d ∈ torch_dims ins sizes, 0 < d.input_size
  output_pos : ∀ d ∈ torch_dims ins sizes, 0 < d.output_size

structure EqualsReference (mode : Mode) (lead ins : List Nat) (sizes : Sizes) : Prop where
  matrices : ∀ align_corners, mode = .linear align_corners → ∀ d ∈ torch_dims ins sizes,
    ∃ w, ratio_weight align_corners d = .ok w ∧ ∀ o < d.output_size,
      ∑ i ∈ Finset.range d.input_size, w.get [i, o] = 1 ∧
        ∃ p, ∀ i < d.input_size, w.get [i, o] ≠ 0 → i = p ∨ i = p + 1
  result : ∀ input : Tensor ℚ, input.shape = lead ++ ins →
    ∃ r, decomposed mode sizes input = .ok r ∧ Same r (torch_upsample mode sizes input)

-- The scale of the decomposition does what torch's does.
def SameScale (sizes : Sizes) (d : Dim) : Mode → Prop
  | .linear align_corners => d.input_size = 1 ∨ align_corners = true ∨
      compute_scales_value d = d.input_size / d.output_size
  | .nearest => (∃ fs, sizes = .factors fs) ∨
      ∀ o < d.output_size, ratio_index d o = nearest_index d o

structure Meets (mode : Mode) (lead ins : List Nat) (sizes : Sizes) : Prop where
  divides : ∀ align_corners, mode = .linear align_corners → ∀ d ∈ torch_dims ins sizes,
    Divides align_corners d
  -- an input without elements has nothing to scale
  scales : 0 ∈ lead ∨ ∀ d ∈ torch_dims ins sizes, SameScale sizes d mode

section Axes

variable {weight : Dim → Except PyError (Tensor ℚ)} {w : Dim → Nat → Nat → ℚ} {lead : List Nat}
  {ds : List Dim} {t : Tensor ℚ}

-- The loop of matrix products.
theorem upsample_axes_ok (hlead : 0 < lead.length)
    (hweight : ∀ d ∈ ds, ∃ m, weight d = .ok m ∧ m.shape = [d.input_size, d.output_size] ∧
      ∀ i < d.input_size, ∀ o < d.output_size, m.get [i, o] = w d i o)
    (hshape : t.shape = lead ++ ds.map Dim.input_size) :
    ∃ r, upsample_axes weight lead.length ds t = .ok r ∧
      Same r (alongs Dim.output_size w lead.length ds t) := by
  induction ds generalizing lead t with
  | nil => exact ⟨t, rfl, rfl, fun _ _ => rfl⟩
  | cons d ds ih =>
      obtain ⟨m, hm, hmshape, hget⟩ := hweight d List.mem_cons_self
      have hlt := head_lt hshape
      have hlast : t.shape.length = (t.shape.length - 1) + 1 := by omega
      have hlen : lead.length ≤ t.shape.length - 1 := by omega
      have hstep := transpose_matmul_transpose hlast (by omega) hlen (head_getD hshape) hmshape
      have hcolumns : Same (t.along lead.length d.output_size fun i o => m.get [i, o])
          (t.along lead.length d.output_size (w d)) := by
        refine along_congr (head_lt hshape) ?_
        rw [head_getD hshape]
        exact hget
      have hnext := Same.trans hstep hcolumns
      have hnextshape := hnext.1.trans (along_head_shape hshape d.output_size (w d))
      obtain ⟨r, hr, hsame⟩ := ih (by simp) (fun d' hd' => hweight d' (List.mem_cons_of_mem _ hd'))
        hnextshape
      rw [List.length_append] at hr hsame
      refine ⟨r, ?_, Same.trans hsame (hnext.alongs (lead.length + 1) ds)⟩
      rw [upsample_axes, hm]
      exact hr

theorem upsample_axes_error {d : Dim} (hd : d ∈ ds) {e : PyError} (herror : weight d = .error e)
    (axis : Nat) (t : Tensor ℚ) : ∃ e', upsample_axes weight axis ds t = .error e' := by
  induction ds generalizing axis t with
  | nil => exact absurd hd List.not_mem_nil
  | cons d' ds ih =>
      rw [upsample_axes]
      cases hw : weight d' with
      | error e' => exact ⟨e', rfl⟩
      | ok m =>
          obtain rfl | hd := List.mem_cons.mp hd
          · rw [herror] at hw
            exact absurd hw nofun
          · exact ih hd _ _

theorem upsample_axes_map (f : Dim → Dim) (axis : Nat) (t : Tensor ℚ) :
    upsample_axes weight axis (ds.map f) t = upsample_axes (fun d => weight (f d)) axis ds t := by
  induction ds generalizing axis t with
  | nil => rfl
  | cons d ds ih =>
      rw [List.map_cons, upsample_axes, upsample_axes]
      cases weight (f d) with
      | error e => rfl
      | ok m => exact ih _ _

theorem torch_axes_alongs {step : Nat → Dim → Tensor ℚ → Tensor ℚ}
    (hstep : ∀ d ∈ ds, ∀ axis (t : Tensor ℚ), t.shape.getD axis 0 = d.input_size →
      step axis d t = t.along axis d.output_size (w d))
    (hshape : t.shape = lead ++ ds.map Dim.input_size) :
    torch_axes step lead.length ds t = alongs Dim.output_size w lead.length ds t := by
  induction ds generalizing lead t with
  | nil => rfl
  | cons d ds ih =>
      have htail := ih (fun d' hd' => hstep d' (List.mem_cons_of_mem _ hd'))
        (along_head_shape hshape d.output_size (w d))
      rw [List.length_append] at htail
      rw [torch_axes, alongs, hstep d List.mem_cons_self lead.length t (head_getD hshape)]
      exact htail

end Axes

section Calls

variable {mode : Mode} {sizes : Sizes} {lead ins : List Nat}

def Dim.drop_scale (d : Dim) : Dim := { d with scale := none }

theorem zip_dims_input {os : List Nat} {ss : List (Option ℚ)} (hos : os.length = ins.length)
    (hss : ins.length ≤ ss.length) : (zip_dims ins os ss).map Dim.input_size = ins := by
  induction ins generalizing os ss with
  | nil => simp [zip_dims]
  | cons n ins ih =>
      obtain _ | ⟨o, os⟩ := os
      · exact absurd hos (by simp)
      obtain _ | ⟨s, ss⟩ := ss
      · exact absurd hss (by simp)
      have := ih (Nat.succ.inj hos) (Nat.le_of_succ_le_succ hss)
      unfold zip_dims at this ⊢
      rw [List.zip_cons_cons, List.zipWith_cons_cons, List.map_cons, this]

theorem zip_dims_none {os : List Nat} {ss : List (Option ℚ)} (hos : os.length = ins.length)
    (hss : ins.length ≤ ss.length) :
    zip_dims ins os (List.replicate os.length none) = (zip_dims ins os ss).map Dim.drop_scale := by
  induction ins generalizing os ss with
  | nil => simp [zip_dims]
  | cons n ins ih =>
      obtain _ | ⟨o, os⟩ := os
      · exact absurd hos (by simp)
      obtain _ | ⟨s, ss⟩ := ss
      · exact absurd hss (by simp)
      have := ih (Nat.succ.inj hos) (Nat.le_of_succ_le_succ hss)
      unfold zip_dims at this ⊢
      rw [List.length_cons, List.replicate_succ, List.zip_cons_cons, List.zip_cons_cons,
        List.zipWith_cons_cons, List.zipWith_cons_cons, List.map_cons, this]
      rfl

theorem torch_dims_input (h : Accepted lead ins sizes) :
    (torch_dims ins sizes).map Dim.input_size = ins := by
  have hfit := h.fit
  cases sizes with
  | size os => exact zip_dims_input hfit (by rw [List.length_replicate, hfit])
  | factors fs =>
      have hfit : fs.length = ins.length := hfit
      exact zip_dims_input (by simp [hfit]) (by simp [hfit])
  | default os h w d => exact zip_dims_input hfit.1 hfit.2

-- The weights of the decomposition for the dimensions that torch sees.
def code_weight (sizes : Sizes) : Mode → Dim → Except PyError (Tensor ℚ)
  | .linear align_corners => ratio_weight align_corners
  | .nearest => match sizes with
    | .factors _ => nearest_weight
    | _ => fun d => nearest_weight d.drop_scale

section Loops

variable {input : Tensor ℚ} (hrank : lead.length = 2) (hshape : input.shape = lead ++ ins)
  {os : List Nat} {scales : List (Option ℚ)} (hscales : scales.length = ins.length)
include hrank hshape hscales

theorem first_axis : input.shape.length - scales.length = 2 := by
  rw [hshape, List.length_append, hrank, hscales]
  omega

omit hrank in
theorem dims_eq : dims input.shape os scales = zip_dims ins os scales := by
  unfold dims
  rw [hshape, List.length_append, hscales, Nat.add_sub_cancel, List.drop_left]

theorem upsample_linear_loop (align_corners : Bool) :
    upsample_linear input os align_corners scales =
      upsample_axes (ratio_weight align_corners) 2 (zip_dims ins os scales) input := by
  unfold upsample_linear
  rw [first_axis hrank hshape hscales, dims_eq hshape hscales]

theorem upsample_nearest_loop :
    upsample_nearest input os scales =
      upsample_axes nearest_weight 2 (zip_dims ins os scales) input := by
  unfold upsample_nearest
  rw [first_axis hrank hshape hscales, dims_eq hshape hscales]

end Loops

section OutputSize

variable {shape : List Nat} (hspatial : shape.length - 2 = ins.length)
include hspatial

theorem output_size_given {os : List Nat} (hos : os.length = ins.length) :
    upsample_compute_output_size shape (some os) none = .ok os := by
  unfold upsample_compute_output_size
  simp only
  rw [hspatial, if_pos hos]

theorem output_size_scaled (hdrop : shape.drop 2 = ins) {fs : List ℚ}
    (hfs : fs.length = ins.length) :
    upsample_compute_output_size shape none (some fs) = .ok (List.zipWith scaled_size ins fs) := by
  unfold upsample_compute_output_size
  simp only
  rw [hspatial, if_pos hfs, hdrop]

end OutputSize

theorem given_scales_factors {fs : List ℚ} (hfs : fs ≠ []) (os : List Nat) :
    given_scales (some fs) os = fs.map some := by
  cases fs with
  | nil => exact absurd rfl hfs
  | cons f fs => rfl

theorem decomposed_eq (h : Accepted lead ins sizes) {input : Tensor ℚ}
    (hshape : input.shape = lead ++ ins) :
    decomposed mode sizes input =
      upsample_axes (code_weight sizes mode) 2 (torch_dims ins sizes) input := by
  have hspatial : input.shape.length - 2 = ins.length := by
    rw [hshape, List.length_append, h.rank]
    omega
  have hdrop : input.shape.drop 2 = ins := by rw [hshape, ← h.rank, List.drop_left]
  have hfit := h.fit
  cases sizes with
  | size os =>
      have hos : os.length = ins.length := hfit
      have hnone : (List.replicate os.length (none : Option ℚ)).length = ins.length := by
        rw [List.length_replicate, hos]
      have hosize := output_size_given hspatial hos
      cases mode with
      | linear align_corners =>
          have hrun : decomposed (.linear align_corners) (.size os) input =
              upsample_linear input os align_corners (List.replicate os.length none) := by
            simp only [decomposed, upsample_linear_vec, Option.isNone_some, Bool.false_eq_true,
              if_false, hosize, bind, Except.bind, given_scales]
          rw [hrun, upsample_linear_loop h.rank hshape hnone]
          rfl
      | nearest =>
          have hrun : decomposed .nearest (.size os) input =
              upsample_nearest input os (List.replicate os.length none) := by
            simp only [decomposed, upsample_nearest_vec, Option.isNone_some, Bool.false_eq_true,
              if_false, hosize, bind, Except.bind, given_scales]
          rw [hrun, upsample_nearest_loop h.rank hshape hnone, zip_dims_none hos hnone.ge,
            upsample_axes_map]
          rfl
  | factors fs =>
      have hfs : fs.length = ins.length := hfit
      have hne : fs ≠ [] := by
        rw [← List.length_pos_iff, hfs, List.length_pos_iff]
        exact h.spatial
      have hlen : (fs.map some).length = ins.length := by rw [List.length_map, hfs]
      have hosize := output_size_scaled hspatial hdrop hfs
      cases mode with
      | linear align_corners =>
          have hrun : decomposed (.linear align_corners) (.factors fs) input =
              upsample_linear input (List.zipWith scaled_size ins fs) align_corners
                (fs.map some) := by
            simp only [decomposed, upsample_linear_vec, Option.isNone_none, if_true, hosize, bind,
              Except.bind, given_scales_factors hne]
          rw [hrun, upsample_linear_loop h.rank hshape hlen]
          rfl
      | nearest =>
          have hrun : decomposed .nearest (.factors fs) input =
              upsample_nearest input (List.zipWith scaled_size ins fs) (fs.map some) := by
            simp only [decomposed, upsample_nearest_vec, Option.isNone_none, if_true, hosize, bind,
              Except.bind, given_scales_factors hne]
          rw [hrun, upsample_nearest_loop h.rank hshape hlen]
          rfl
  | default os sh sw sd =>
      obtain ⟨hos, hscales⟩ := hfit
      have hnone : (List.replicate os.length (none : Option ℚ)).length = ins.length := by
        rw [List.length_replicate, hos]
      have hosize := output_size_given hspatial hos
      have hzip : zip_dims ins os (List.replicate os.length none) =
          (zip_dims ins os [sh, sw, sd]).map Dim.drop_scale := zip_dims_none hos hscales
      cases mode with
      | linear align_corners =>
          have hrun : decomposed (.linear align_corners) (.default os sh sw sd) input =
              upsample_linear input os align_corners (List.replicate os.length none) := by
            simp only [decomposed, upsample_linear_default, hosize, bind, Except.bind, given_scales]
          rw [hrun, upsample_linear_loop h.rank hshape hnone, hzip, upsample_axes_map]
          rfl
      | nearest =>
          have hrun : decomposed .nearest (.default os sh sw sd) input =
              upsample_nearest input os (List.replicate os.length none) := by
            simp only [decomposed, upsample_nearest_default, hosize, bind, Except.bind,
              given_scales]
          rw [hrun, upsample_nearest_loop h.rank hshape hnone, hzip, upsample_axes_map]
          rfl

def code_matrix (sizes : Sizes) : Mode → Dim → Nat → Nat → ℚ
  | .linear align_corners => linear_matrix align_corners
  | .nearest => match sizes with
    | .factors _ => fun d => pick (nearest_index d)
    | _ => fun d => pick (ratio_index d)

def torch_matrix : Mode → Dim → Nat → Nat → ℚ
  | .linear align_corners => torch_linear_matrix align_corners
  | .nearest => fun d => pick (nearest_index d)

-- An output size that comes from a factor is not larger than the factor allows.
theorem factor_of_mem {fs : List ℚ} {d : Dim}
    (hd : d ∈ zip_dims ins (List.zipWith scaled_size ins fs) (fs.map some))
    (hin : 0 < d.input_size) (hout : 0 < d.output_size) :
    ∃ s, d.scale = some s ∧ 0 < s ∧ (d.output_size : ℚ) ≤ d.input_size * s := by
  have hmem : ∃ s, d.scale = some s ∧ d.output_size = scaled_size d.input_size s := by
    clear hin hout
    induction ins generalizing fs with
    | nil => simp [zip_dims] at hd
    | cons n ins ih =>
        obtain _ | ⟨f, fs⟩ := fs
        · simp [zip_dims] at hd
        · unfold zip_dims at hd
          rw [List.zipWith_cons_cons, List.map_cons, List.zip_cons_cons,
            List.zipWith_cons_cons] at hd
          obtain rfl | hd := List.mem_cons.mp hd
          · exact ⟨f, rfl, rfl⟩
          · exact ih hd
  obtain ⟨s, hs, hsize⟩ := hmem
  have hn : (0 : ℚ) < d.input_size := by exact_mod_cast hin
  have hm : (0 : ℚ) < d.output_size := by exact_mod_cast hout
  have hle : (d.output_size : ℚ) ≤ d.input_size * s := by
    unfold scaled_size at hsize
    split_ifs at hsize with hden
    · have hs : (s.num : ℚ) = s := (Rat.den_eq_one_iff s).mp hden
      have hnum : (d.output_size : Int) = d.input_size * s.num := by omega
      have : (d.output_size : ℚ) = d.input_size * s.num := by exact_mod_cast hnum
      rw [this, hs]
    · have hfloor : (d.output_size : Int) = ⌊(d.input_size : ℚ) * s⌋ := by omega
      have : ((d.output_size : Int) : ℚ) ≤ d.input_size * s := by
        rw [hfloor]
        exact Int.floor_le _
      exact_mod_cast this
  refine ⟨s, hs, ?_, hle⟩
  by_contra hneg
  have := mul_nonpos_of_nonneg_of_nonpos hn.le (not_lt.mp hneg)
  linarith

theorem code_weight_ok (h : Accepted lead ins sizes) {d : Dim} (hd : d ∈ torch_dims ins sizes)
    (hdivides : ∀ align_corners, mode = .linear align_corners → Divides align_corners d) :
    ∃ m, code_weight sizes mode d = .ok m ∧ m.shape = [d.input_size, d.output_size] ∧
      ∀ i < d.input_size, ∀ o < d.output_size, m.get [i, o] = code_matrix sizes mode d i o := by
  have hin := h.input_pos d hd
  have hout := h.output_pos d hd
  cases mode with
  | linear align_corners => exact ratio_weight_ok hin hout (hdivides align_corners rfl)
  | nearest =>
      cases sizes with
      | factors fs =>
          obtain ⟨s, hs, hpos, hle⟩ := factor_of_mem hd hin hout
          exact nearest_weight_factor hpos hs hle
      | size os => exact nearest_weight_ratio (d := d.drop_scale) hin hout rfl
      | default os sh sw sd => exact nearest_weight_ratio (d := d.drop_scale) hin hout rfl

theorem torch_step_along (hin : ∀ d ∈ torch_dims ins sizes, 0 < d.input_size) :
    ∀ d ∈ torch_dims ins sizes, ∀ axis (t : Tensor ℚ), t.shape.getD axis 0 = d.input_size →
      torch_step mode axis d t = t.along axis d.output_size (torch_matrix mode d) := by
  intro d hd axis t hdim
  cases mode with
  | linear align_corners => exact torch_linear_at_along (hin d hd) hdim
  | nearest => exact torch_nearest_at_along (hin d hd) hdim

theorem code_matrix_sum (h : Accepted lead ins sizes) {d : Dim} (hd : d ∈ torch_dims ins sizes)
    {o : Nat} (ho : o < d.output_size) :
    ∑ i ∈ Finset.range d.input_size, code_matrix sizes mode d i o = 1 := by
  have hin := h.input_pos d hd
  cases mode with
  | linear align_corners => exact linear_matrix_sum hin o
  | nearest =>
      cases sizes with
      | factors fs => exact pick_sum (nearest_index_lt hin o)
      | size os => exact pick_sum (ratio_index_lt hin ho)
      | default os sh sw sd => exact pick_sum (ratio_index_lt hin ho)

theorem torch_matrix_sum {d : Dim} (hin : 0 < d.input_size) (o : Nat) :
    ∑ i ∈ Finset.range d.input_size, torch_matrix mode d i o = 1 := by
  cases mode with
  | linear align_corners => exact torch_linear_matrix_sum hin o
  | nearest => exact pick_sum (nearest_index_lt hin o)

-- Along one dimension, the matrices are equal when the scales do the same.
theorem matrices_iff (h : Accepted lead ins sizes) {d : Dim} (hd : d ∈ torch_dims ins sizes)
    (hdivides : ∀ align_corners, mode = .linear align_corners → Divides align_corners d) :
    (∀ i < d.input_size, ∀ o < d.output_size,
      code_matrix sizes mode d i o = torch_matrix mode d i o) ↔ SameScale sizes d mode := by
  have hin := h.input_pos d hd
  have hout := h.output_pos d hd
  cases mode with
  | linear align_corners =>
      exact (linear_matrices_iff hin).trans
        (linear_agree_iff hin hout (hdivides align_corners rfl))
  | nearest =>
      cases sizes with
      | factors fs => exact iff_of_true (fun _ _ _ _ => rfl) (.inl ⟨fs, rfl⟩)
      | size os =>
          refine (pick_eq_iff fun o ho => ratio_index_lt hin ho).trans ⟨.inr, ?_⟩
          exact fun hscale => hscale.resolve_left nofun
      | default os sh sw sd =>
          refine (pick_eq_iff fun o ho => ratio_index_lt hin ho).trans ⟨.inr, ?_⟩
          exact fun hscale => hscale.resolve_left nofun

end Calls

section Main

variable {mode : Mode} {sizes : Sizes} {lead ins : List Nat}

theorem not_inBounds_of_zero {ds is : List Nat} (h : 0 ∈ ds) : ¬InBounds is ds := by
  intro his
  induction his with
  | nil => exact absurd h List.not_mem_nil
  | cons hi _ ih =>
      obtain rfl | h := List.mem_cons.mp h
      · exact Nat.not_lt_zero _ hi
      · exact ih h

-- What both sides compute, as maps along the spatial axes.
theorem result_iff (h : Accepted lead ins sizes)
    (hdivides : ∀ align_corners, mode = .linear align_corners → ∀ d ∈ torch_dims ins sizes,
      Divides align_corners d) :
    (∀ input : Tensor ℚ, input.shape = lead ++ ins →
      ∃ r, decomposed mode sizes input = .ok r ∧ Same r (torch_upsample mode sizes input)) ↔
    ∀ input : Tensor ℚ, input.shape = lead ++ (torch_dims ins sizes).map Dim.input_size →
      Same (alongs Dim.output_size (code_matrix sizes mode) lead.length (torch_dims ins sizes)
          input)
        (alongs Dim.output_size (torch_matrix mode) lead.length (torch_dims ins sizes) input) := by
  have hrun : ∀ input : Tensor ℚ, input.shape = lead ++ ins →
      ∃ r, decomposed mode sizes input = .ok r ∧ Same r (alongs Dim.output_size
        (code_matrix sizes mode) lead.length (torch_dims ins sizes) input) := by
    intro input hshape
    rw [decomposed_eq h hshape, ← h.rank]
    refine upsample_axes_ok (by rw [h.rank]; omega) (fun d hd => code_weight_ok h hd
      fun align_corners hmode => hdivides align_corners hmode d hd) ?_
    rw [torch_dims_input h, hshape]
  have htorch : ∀ input : Tensor ℚ, input.shape = lead ++ ins →
      torch_upsample mode sizes input =
        alongs Dim.output_size (torch_matrix mode) lead.length (torch_dims ins sizes) input := by
    intro input hshape
    have hdrop : input.shape.drop 2 = ins := by rw [hshape, ← h.rank, List.drop_left]
    unfold torch_upsample
    rw [hdrop, ← h.rank]
    refine torch_axes_alongs (torch_step_along h.input_pos) ?_
    rw [torch_dims_input h, hshape]
  rw [torch_dims_input h]
  constructor
  · intro hresult input hshape
    obtain ⟨r, hr, hsame⟩ := hresult input hshape
    obtain ⟨r', hr', hsame'⟩ := hrun input hshape
    obtain rfl := Except.ok.inj (hr.symm.trans hr')
    rw [htorch input hshape] at hsame
    exact Same.trans (Same.symm hsame') hsame
  · intro halongs input hshape
    obtain ⟨r, hr, hsame⟩ := hrun input hshape
    rw [htorch input hshape]
    exact ⟨r, hr, Same.trans hsame (halongs input hshape)⟩

end Main

end TTXla.TTTorch.Decompositions.Upsample

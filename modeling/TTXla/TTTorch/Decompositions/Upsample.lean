import TTXla.Lib.Tensor.Axis
import Mathlib.Data.Rat.Floor
import Mathlib.Algebra.Order.Group.Unbundled.Abs
import Mathlib.Algebra.Order.Ring.Abs

-- The decompositions of the upsampling operations, with exact arithmetic.
namespace TTXla.TTTorch.Decompositions.Upsample

open Tensor

inductive PyError where
  | ZeroDivisionError
  | RuntimeError
deriving DecidableEq

section Weights

def relu (x : ℚ) : ℚ := max x 0

-- The scale and the translation of the sampled positions.
def linear_scale (input_size output_size : Nat) (scale : ℚ) (align_corners : Bool) : ℚ × ℚ :=
  if align_corners then
    let scale := ((output_size : ℚ) - 1) / ((input_size : ℚ) - 1)
    (scale, 1 / 2 - scale / 2)
  else (scale, 0)

def sample_f (scale translation : ℚ) (o : Nat) : ℚ :=
  let inv_scale := 1 / scale
  (o + 1 / 2) * inv_scale - translation * inv_scale - 1 / 2

-- The unnormalized weight of the element `i` for the position `x`.
def tent (x : ℚ) (i : Nat) : ℚ := relu (1 - |(|x - i|)|)

def linear_weights (input_size : Nat) (x : ℚ) (i : Nat) : ℚ :=
  let total_weight_sum := ∑ i ∈ Finset.range input_size, tent x i
  let total_weight_sum := if total_weight_sum ≠ 0 then total_weight_sum else 1
  let weight := tent x i / total_weight_sum
  if -1 / 2 ≤ x ∧ x ≤ input_size - 1 / 2 then weight else 0

def compute_linear_weight (input_size output_size : Nat) (scale : ℚ) (align_corners : Bool) :
    Except PyError (Tensor ℚ) :=
  if input_size = 1 then .ok (ones [1, output_size])
  else
    let (scale, translation) := linear_scale input_size output_size scale align_corners
    if scale = 0 then .error .ZeroDivisionError
    else .ok (matrix input_size output_size fun i o =>
      linear_weights input_size (sample_f scale translation o) i)

def nearest_scale (in_size out_size : Nat) (scale : Option ℚ) : Except PyError ℚ :=
  match scale with
  | some scale => if scale = 0 then .error .ZeroDivisionError else .ok (1 / scale)
  | none => if out_size = 0 then .error .ZeroDivisionError else .ok (in_size / out_size)

-- `one_hot` raises for an index that is not a class.
def compute_nearest_weight (in_size out_size : Nat) (scale : Option ℚ) :
    Except PyError (Tensor ℚ) := do
  let scale ← nearest_scale in_size out_size scale
  let input_indices (o : Nat) : Int := ⌊(o : ℚ) * scale⌋
  if ∀ o < out_size, 0 ≤ input_indices o ∧ input_indices o < in_size then
    .ok (matrix in_size out_size fun i o => if input_indices o = i then 1 else 0)
  else .error .RuntimeError

end Weights

section Operations

-- One spatial dimension.
structure Dim where
  input_size : Nat
  output_size : Nat
  scale : Option ℚ

def zip_dims (input_size output_size : List Nat) (scales : List (Option ℚ)) : List Dim :=
  List.zipWith (fun input_size (out : Nat × Option ℚ) => ⟨input_size, out.1, out.2⟩) input_size
    (output_size.zip scales)

-- The input sizes are `input.shape[-len(scales):]`.
def dims (shape output_size : List Nat) (scales : List (Option ℚ)) : List Dim :=
  zip_dims (shape.drop (shape.length - scales.length)) output_size scales

-- The loop over the dimensions: each is brought to the end, multiplied and brought back.
def upsample_axes (weight : Dim → Except PyError (Tensor ℚ)) :
    Nat → List Dim → Tensor ℚ → Except PyError (Tensor ℚ)
  | _, [], res => .ok res
  | axis, d :: ds, res => do
    let w ← weight d
    let last := res.shape.length - 1
    upsample_axes weight (axis + 1) ds (((res.transpose axis last).matmul w).transpose axis last)

-- The given scales are overwritten by the ratios of the sizes.
def ratio_weight (align_corners : Bool) (d : Dim) : Except PyError (Tensor ℚ) :=
  if d.input_size = 0 then .error .ZeroDivisionError
  else compute_linear_weight d.input_size d.output_size (d.output_size / d.input_size) align_corners

def upsample_linear (input : Tensor ℚ) (output_size : List Nat) (align_corners : Bool)
    (scales : List (Option ℚ)) : Except PyError (Tensor ℚ) :=
  upsample_axes (ratio_weight align_corners) (input.shape.length - scales.length)
    (dims input.shape output_size scales) input

def nearest_weight (d : Dim) : Except PyError (Tensor ℚ) :=
  compute_nearest_weight d.input_size d.output_size d.scale

def upsample_nearest (input : Tensor ℚ) (output_size : List Nat) (scales : List (Option ℚ)) :
    Except PyError (Tensor ℚ) :=
  upsample_axes nearest_weight (input.shape.length - scales.length)
    (dims input.shape output_size scales) input

-- `int(size * scale)`.
def scaled_size (size : Nat) (scale : ℚ) : Nat :=
  if scale.den = 1 then (size * scale.num).toNat else ⌊(size : ℚ) * scale⌋.toNat

-- Of torch: the sizes are given, or they follow from the factors.
def upsample_compute_output_size (shape : List Nat) (output_size : Option (List Nat))
    (scale_factors : Option (List ℚ)) : Except PyError (List Nat) :=
  let spatial_dimensions := shape.length - 2
  match output_size, scale_factors with
  | some output_size, none =>
      if output_size.length = spatial_dimensions then .ok output_size else .error .RuntimeError
  | none, some scale_factors =>
      if scale_factors.length = spatial_dimensions then
        .ok (List.zipWith scaled_size (shape.drop 2) scale_factors)
      else .error .RuntimeError
  | _, _ => .error .RuntimeError

-- `scale_factors if scale_factors else [None] * len(osize)`.
def given_scales (scale_factors : Option (List ℚ)) (osize : List Nat) : List (Option ℚ) :=
  match scale_factors with
  | some (s :: ss) => (s :: ss).map some
  | _ => List.replicate osize.length none

def upsample_linear_vec (input : Tensor ℚ) (output_size : Option (List Nat))
    (align_corners : Bool) (scale_factors : Option (List ℚ)) : Except PyError (Tensor ℚ) := do
  let scale_factors := if output_size.isNone then scale_factors else none
  let osize ← upsample_compute_output_size input.shape output_size scale_factors
  upsample_linear input osize align_corners (given_scales scale_factors osize)

-- The schema always gives the output size, so the scales are dropped.
def upsample_linear_default (input : Tensor ℚ) (output_size : List Nat) (align_corners : Bool)
    (_scales_h _scales_w _scales_d : Option ℚ) : Except PyError (Tensor ℚ) := do
  let osize ← upsample_compute_output_size input.shape (some output_size) none
  upsample_linear input osize align_corners (given_scales none osize)

def upsample_nearest_vec (input : Tensor ℚ) (output_size : Option (List Nat))
    (scale_factors : Option (List ℚ)) : Except PyError (Tensor ℚ) := do
  let scale_factors := if output_size.isNone then scale_factors else none
  let osize ← upsample_compute_output_size input.shape output_size scale_factors
  upsample_nearest input osize (given_scales scale_factors osize)

def upsample_nearest_default (input : Tensor ℚ) (output_size : List Nat)
    (_scales_h _scales_w _scales_d : Option ℚ) : Except PyError (Tensor ℚ) := do
  let osize ← upsample_compute_output_size input.shape (some output_size) none
  upsample_nearest input osize (given_scales none osize)

end Operations

section Torch

-- What torch makes of a size and a given scale, a positive one is used.
def compute_scales_value (d : Dim) : ℚ :=
  match d.scale with
  | some scale => if 0 < scale then 1 / scale else d.input_size / d.output_size
  | none => d.input_size / d.output_size

def area_pixel_compute_scale (align_corners : Bool) (d : Dim) : ℚ :=
  if align_corners then
    if 1 < d.output_size then ((d.input_size : ℚ) - 1) / ((d.output_size : ℚ) - 1) else 0
  else compute_scales_value d

def source_index (align_corners : Bool) (d : Dim) (o : Nat) : ℚ :=
  let scale := area_pixel_compute_scale align_corners d
  max (if align_corners then scale * o else scale * (o + 1 / 2) - 1 / 2) 0

-- Linear interpolation along one axis, between an element and its neighbour.
def torch_linear_at (align_corners : Bool) (axis : Nat) (d : Dim) (t : Tensor ℚ) : Tensor ℚ where
  shape := t.shape.set axis d.output_size
  get := fun is =>
    let x := source_index align_corners d (is.getD axis 0)
    let i₀ := min ⌊x⌋₊ (d.input_size - 1)
    let i₁ := min (i₀ + 1) (d.input_size - 1)
    let v₀ := t.get (is.set axis i₀)
    let v₁ := t.get (is.set axis i₁)
    v₀ + (v₁ - v₀) * min (max (x - i₀) 0) 1

def nearest_index (d : Dim) (o : Nat) : Nat :=
  min ⌊(o : ℚ) * compute_scales_value d⌋₊ (d.input_size - 1)

def torch_nearest_at (axis : Nat) (d : Dim) (t : Tensor ℚ) : Tensor ℚ where
  shape := t.shape.set axis d.output_size
  get := fun is => t.get (is.set axis (nearest_index d (is.getD axis 0)))

-- One dimension after another.
def torch_axes (step : Nat → Dim → Tensor ℚ → Tensor ℚ) : Nat → List Dim → Tensor ℚ → Tensor ℚ
  | _, [], t => t
  | axis, d :: ds, t => torch_axes step (axis + 1) ds (step axis d t)

end Torch

end TTXla.TTTorch.Decompositions.Upsample

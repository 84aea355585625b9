import Mathlib.Data.List.ReduceOption
import TTXla.Lib.Excepts
import TTXla.Lib.Tensor

-- The wrappers of the merged linear layers, which keep the parts of the weight apart.
namespace TTXla.VllmTT

open Excepts Tensor

variable {R : Type} [CommRing R]

inductive LinearError where
  | shape_mismatch
  -- `torch.cat` of no tensors, and of `None`
  | RuntimeError
  | TypeError
deriving DecidableEq

-- What a layer returns, with `return_bias` or without.
inductive LayerOutput (R : Type) where
  | output (output : Tensor R)
  | with_bias (output : Tensor R) (output_bias : Option (Tensor R))

-- `F.linear`.
def linear (input weight : Tensor R) (bias : Option (Tensor R)) :
    Except LinearError (Tensor R) := do
  ensure (input.shape ≠ [] ∧ last input.shape = last weight.shape) .shape_mismatch
  return {
    shape := setLast input.shape (weight.shape.headD 0)
    get := fun is => (∑ k ∈ Finset.range (last input.shape),
      input.get (setLast is k) * weight.get [last is, k]) +
        (bias.map fun b => b.get [last is]).getD 0 }

-- `t[start_idx:end_idx]`.
def slice_rows (t : Tensor R) (start_idx end_idx : Nat) : Tensor R where
  shape := (min end_idx (t.shape.headD 0) - start_idx) :: t.shape.tail
  get := fun is => t.get ((start_idx + is.headD 0) :: is.tail)

-- `torch.cat(tensors, dim=-1)`.
def cat : List (Tensor R) → Except LinearError (Tensor R)
  | [] => .error .RuntimeError
  | t :: tensors => .ok (tensors.foldl catLast t)

-- A layer of vLLM, on one device. Its forward function is not part of the plugin.
structure ColumnParallelLinear (R : Type) where
  weight : Tensor R
  bias : Option (Tensor R)
  skip_bias_add : Bool
  return_bias : Bool
  output_sizes : List Nat
  input_size : Nat
  forward : Tensor R → Except LinearError (LayerOutput R)
  weight_shape : weight.shape = [output_sizes.sum, input_size]
  bias_shape : ∀ b ∈ bias, b.shape = [output_sizes.sum]

structure QKVParallelLinear (R : Type) extends ColumnParallelLinear R where
  head_size : Nat
  v_head_size : Nat
  num_heads : Nat
  num_kv_heads : Nat
  output_sizes_eq : output_sizes =
    [num_heads * head_size, num_kv_heads * head_size, num_kv_heads * v_head_size]

def returned (return_bias : Bool) (output : Tensor R) (output_bias : Option (Tensor R)) :
    LayerOutput R :=
  if return_bias then .with_bias output output_bias else .output output

-- The parts of a tensor, from a row on.
def split_rows (t : Tensor R) : Nat → List Nat → List (Tensor R)
  | _, [] => []
  | start_idx, output_size :: output_sizes =>
      slice_rows t start_idx (start_idx + output_size) ::
        split_rows t (start_idx + output_size) output_sizes

structure XlaMergedColumnParallelLinear (R : Type) where
  skip_bias_add : Bool
  return_bias : Bool
  weights : List (Tensor R)
  biases : List (Option (Tensor R))

namespace XlaMergedColumnParallelLinear

def init (layer : ColumnParallelLinear R) : XlaMergedColumnParallelLinear R where
  skip_bias_add := layer.skip_bias_add
  return_bias := layer.return_bias
  weights := split_rows layer.weight 0 layer.output_sizes
  biases := match layer.bias with
    | some bias => (split_rows bias 0 layer.output_sizes).map some
    | none => List.replicate layer.output_sizes.length none

def output_bias (self : XlaMergedColumnParallelLinear R) :
    Except LinearError (Option (Tensor R)) :=
  let output_biases := if self.skip_bias_add then self.biases.reduceOption else []
  if output_biases = [] then return none else some <$> cat output_biases

def forward (self : XlaMergedColumnParallelLinear R) (input : Tensor R) :
    Except LinearError (LayerOutput R) := do
  let projections ← (self.weights.zip self.biases).mapM fun x =>
    linear input x.1 (if self.skip_bias_add then none else x.2)
  let merged_proj ← cat projections
  let output_bias ← self.output_bias
  return returned self.return_bias merged_proj output_bias

end XlaMergedColumnParallelLinear

structure XlaQKVParallelLinear (R : Type) where
  skip_bias_add : Bool
  return_bias : Bool
  q_weight : Tensor R
  k_weight : Tensor R
  v_weight : Tensor R
  q_bias : Option (Tensor R)
  k_bias : Option (Tensor R)
  v_bias : Option (Tensor R)

namespace XlaQKVParallelLinear

def init (layer : QKVParallelLinear R) : XlaQKVParallelLinear R :=
  let q_proj_size := layer.num_heads * layer.head_size
  let k_proj_size := layer.num_kv_heads * layer.head_size
  let q (t : Tensor R) := slice_rows t 0 q_proj_size
  let k (t : Tensor R) := slice_rows t q_proj_size (q_proj_size + k_proj_size)
  let v (t : Tensor R) := slice_rows t (q_proj_size + k_proj_size) (t.shape.headD 0)
  { skip_bias_add := layer.skip_bias_add
    return_bias := layer.return_bias
    q_weight := q layer.weight
    k_weight := k layer.weight
    v_weight := v layer.weight
    q_bias := layer.bias.map q
    k_bias := layer.bias.map k
    v_bias := layer.bias.map v }

-- The bias that a projection adds.
def added (self : XlaQKVParallelLinear R) (bias : Option (Tensor R)) : Option (Tensor R) :=
  if self.skip_bias_add then none else bias

-- The biases that are concatenated are those that are added.
def output_bias (self : XlaQKVParallelLinear R) : Except LinearError (Option (Tensor R)) :=
  if self.skip_bias_add then do
    let biases ← [self.added self.q_bias, self.added self.k_bias, self.added self.v_bias].mapM
      fun bias => get bias .TypeError
    some <$> cat biases
  else return none

def forward (self : XlaQKVParallelLinear R) (input : Tensor R) :
    Except LinearError (LayerOutput R) := do
  let q_proj ← linear input self.q_weight (self.added self.q_bias)
  let k_proj ← linear input self.k_weight (self.added self.k_bias)
  let v_proj ← linear input self.v_weight (self.added self.v_bias)
  let qkv_proj ← cat [q_proj, k_proj, v_proj]
  let output_bias ← self.output_bias
  return returned self.return_bias qkv_proj output_bias

end XlaQKVParallelLinear

-- The layers that are replaced by a wrapper that keeps the parts apart.
inductive FusedLinear (R : Type) where
  | merged (layer : ColumnParallelLinear R)
  | qkv (layer : QKVParallelLinear R)

namespace FusedLinear

def layer : FusedLinear R → ColumnParallelLinear R
  | merged layer => layer
  | qkv layer => layer.toColumnParallelLinear

-- `partition_merged_column_parallel_linear` and `partition_qkv_parallel_linear`.
def partitioned_forward : FusedLinear R → Tensor R → Except LinearError (LayerOutput R)
  | merged layer => (XlaMergedColumnParallelLinear.init layer).forward
  | qkv layer => (XlaQKVParallelLinear.init layer).forward

end FusedLinear

end TTXla.VllmTT

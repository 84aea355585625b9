import TTXla.Lib.Einsum
import TTXla.Lib.Excepts

-- `torch.matmul` and `F.linear`, and what replaces them.
namespace TTXla.TTTorch

open Excepts Tensor

variable {R : Type} [CommRing R]

inductive TorchError where
  | RuntimeError
  | TypeError
  | IndexError
  | AttributeError
deriving DecidableEq

-- `torch.matmul`: a vector is a row on the left and a column on the right.
def torch_matmul (input other : Tensor R) : Except TorchError (Tensor R) := do
  ensure (input.shape ≠ [] ∧ other.shape ≠ []) .RuntimeError
  let left := if input.shape.length = 1 then input.unsqueeze 0 else input
  let right := if other.shape.length = 1 then other.unsqueeze 1 else other
  ensure (last left.shape = last right.shape.dropLast ∧
    Broadcasts left.shape.dropLast.dropLast right.shape.dropLast.dropLast) .RuntimeError
  let res := left.matmul right
  let res := if input.shape.length = 1 then res.squeeze (res.shape.length - 2) else res
  return if other.shape.length = 1 then res.squeeze (res.shape.length - 1) else res

-- `t.t()`.
def transpose (t : Tensor R) : Except TorchError (Tensor R) := do
  ensure (t.shape.length ≤ 2) .RuntimeError
  return if t.shape.length = 2 then t.permute [1, 0] else t

-- `t + u`.
def add (t u : Tensor R) : Except TorchError (Tensor R) := do
  ensure (Broadcasts t.shape u.shape) .RuntimeError
  return t + u

-- `F.linear`: the weight is `(out_features, in_features)` or `(in_features)`, the bias is
-- `(out_features)` or `()`.
def torch_linear (input weight : Tensor R) (bias : Option (Tensor R)) :
    Except TorchError (Tensor R) := do
  let weight_t ← transpose weight
  let output ← torch_matmul input weight_t
  match bias with
  | none => return output
  | some bias => do
      ensure (bias.shape = [] ∨ bias.shape = weight.shape.dropLast) .RuntimeError
      add output bias

inductive Func where
  | matmul
  | linear
deriving DecidableEq

inductive Keyword where
  | input
  | other
  | weight
  | bias
deriving DecidableEq

def Func.parameters : Func → List Keyword
  | matmul => [.input, .other]
  | linear => [.input, .weight, .bias]

-- A call as Python makes it. An argument may be `None`.
structure Call (R : Type) where
  func : Func
  args : List (Option (Tensor R))
  kwargs : Keyword → Option (Option (Tensor R))

namespace Call

-- A keyword names a parameter that no positional argument is given for.
def Binds (call : Call R) : Prop :=
  call.args.length ≤ call.func.parameters.length ∧
    ∀ kw ∈ [Keyword.input, .other, .weight, .bias], (call.kwargs kw).isSome →
      kw ∈ call.func.parameters.drop call.args.length

instance (call : Call R) : Decidable call.Binds :=
  inferInstanceAs (Decidable (_ ∧ ∀ kw ∈ _, _ → _))

def argument (call : Call R) (kw : Keyword) : Option (Tensor R) :=
  ((call.args[call.func.parameters.idxOf kw]?).or (call.kwargs kw)).join

-- `func(*args, **kwargs)`.
def torch (call : Call R) : Except TorchError (Tensor R) := do
  ensure call.Binds .TypeError
  let input ← get (call.argument .input) .TypeError
  match call.func with
  | .matmul => do
      let other ← get (call.argument .other) .TypeError
      torch_matmul input other
  | .linear => do
      let weight ← get (call.argument .weight) .TypeError
      torch_linear input weight (call.argument .bias)

-- `args[i]`, where a tensor is needed.
def positional (call : Call R) (i : Nat) (none_error : TorchError) :
    Except TorchError (Tensor R) := do
  let arg ← get call.args[i]? .IndexError
  get arg none_error

end Call

inductive Label where
  | m
  | k
  | n
deriving DecidableEq

-- "...mk,...kn->...mn" and "...mk,...nk->...mn".
def mk_kn : Equation Label where
  left := [.m, .k]
  right := [.k, .n]
  output := [.m, .n]

def mk_nk : Equation Label where
  left := [.m, .k]
  right := [.n, .k]
  output := [.m, .n]

def torch_einsum (equation : Equation Label) (t u : Tensor R) : Except TorchError (Tensor R) :=
  get (einsum equation t u) .RuntimeError

namespace TorchFunctionOverride

-- The second operand is read only when the first test fails.
def is_long (call : Call R) : Except TorchError Bool := do
  let input ← call.positional 0 .AttributeError
  if 4 ≤ input.shape.length then return true
  else do
    let weight ← call.positional 1 .AttributeError
    return decide (4 ≤ weight.shape.length)

def replacement (call : Call R) (input weight : Tensor R) : Except TorchError (Tensor R) := do
  let res ← match call.func with
    | .linear => torch_einsum mk_nk input weight
    | .matmul => torch_einsum mk_kn input weight
  match call.args[2]? with
  | some (some bias) => add res bias
  | _ => return res

-- `__torch_function__`.
def torch_function (is_compiling : Bool) (call : Call R) : Except TorchError (Tensor R) :=
  if is_compiling then call.torch
  else do
    let long ← is_long call
    if long then do
      let input ← call.positional 0 .TypeError
      let weight ← call.positional 1 .TypeError
      replacement call input weight
    else call.torch

end TorchFunctionOverride

-- The decomposition of `aten.matmul.default`. `none` is `NotImplemented`.
def matmul (input weight : Tensor R) (bias : Option (Tensor R)) :
    Option (Except TorchError (Tensor R)) :=
  if 4 ≤ input.shape.length ∨ 4 ≤ weight.shape.length then
    some do
      let res ← torch_einsum mk_kn input weight
      match bias with
      | some bias => add res bias
      | none => return res
  else none

-- What a decomposition leaves alone stays the operation itself.
def decomposed_matmul (input other : Tensor R) : Except TorchError (Tensor R) :=
  (matmul input other none).getD (torch_matmul input other)

end TTXla.TTTorch

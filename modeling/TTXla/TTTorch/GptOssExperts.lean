import TTXla.Lib.Excepts
import TTXla.TTTorch.SparseMLP

-- The forward function of the GPT-OSS experts, on the CPU and on a device.
namespace TTXla.TTTorch

open Excepts Tensor

inductive TensorError where
  -- the size of the dimension -1 of a tensor without elements
  | ambiguous_shape
  | invalid_shape
  | class_value
deriving DecidableEq

section Ops

variable {α : Type}

-- `t.view(*before, -1, *after)`.
def view_infer (t : Tensor α) (before after : List Nat) : Except TensorError (Tensor α) :=
  let size := (before ++ after).prod
  if size = 0 then .error (if t.shape.prod = 0 then .ambiguous_shape else .invalid_shape)
  else if t.shape.prod % size = 0 then
    .ok (t.view (before ++ t.shape.prod / size :: after))
  else .error .invalid_shape

-- `F.one_hot(t, num_classes)`, which raises for other classes.
def one_hot (t : Tensor Nat) (num_classes : Nat) : Except TensorError (Tensor Nat) := do
  ensure (∀ n < t.shape.prod, t.get (unravel t.shape n) < num_classes) .class_value
  return oneHot t num_classes

-- `t[rows]` for a list of rows.
def gather_rows (t : Tensor α) (rows : List Nat) : Tensor α where
  shape := rows.length :: t.shape.tail
  get := fun is => t.get (rows.getD (is.headD 0) 0 :: is.tail)

-- `t.index_add_(0, rows, source)`.
def index_add [AddCommMonoid α] (t : Tensor α) (rows : List Nat) (source : Tensor α) :
    Tensor α where
  shape := t.shape
  get := fun is => t.get is + ∑ i ∈ Finset.range rows.length,
    if rows.getD i 0 = is.headD 0 then source.get (i :: is.tail) else 0

-- `t.nonzero()` of a vector, and the second result of `torch.where` of a matrix.
def nonzero (t : Tensor Nat) : List Nat :=
  (List.range (t.shape.headD 0)).filter fun i => t.get [i] ≠ 0

def where_columns (t : Tensor Nat) : List Nat :=
  (List.range (t.shape.headD 0)).flatMap fun i =>
    (List.range (last t.shape)).filter fun j => t.get [i, j] ≠ 0

end Ops

variable {R : Type} [CommRing R] [LinearOrder R] {E H I : Nat}

structure GptOssExperts (R : Type) (E H I : Nat) where
  experts : Experts R E H I
  act : Activation R

namespace GptOssExperts

variable (self : GptOssExperts R E H I)

def activated (gate_up : Tensor R) : Tensor R :=
  self.act.apply (gate_up.slice 0 2 I) (gate_up.slice 1 2 I)

-- The weighted output of an expert for the tokens that it was selected for.
def weighted_output (hidden_states routing_weights : Tensor R) (expert_idx : Nat)
    (token_idx : List Nat) : Tensor R :=
  let current_state := gather_rows hidden_states token_idx
  let gate_up := matmul current_state (self.experts.gate_up_proj.select expert_idx) +
    self.experts.gate_up_proj_bias.select expert_idx
  let out := matmul (self.activated gate_up) (self.experts.down_proj.select expert_idx) +
    self.experts.down_proj_bias.select expert_idx
  let weights : Tensor R :=
    ⟨[token_idx.length, 1], fun is => routing_weights.get
      [token_idx.getD (is.headD 0) 0, expert_idx]⟩
  out * weights

-- A round of the loop over the experts that are hit.
def add_expert (hidden_states routing_weights : Tensor R) (expert_mask : Tensor Nat)
    (num_experts : Nat) (next_states : Tensor R) (expert_idx : Nat) : Tensor R :=
  if expert_idx = num_experts then next_states
  else
    let token_idx := where_columns (expert_mask.select expert_idx)
    index_add next_states token_idx
      (self.weighted_output hidden_states routing_weights expert_idx token_idx)

def experts_forward_cpu (hidden_states : Tensor R) (router_indices : Tensor Nat)
    (routing_weights : Tensor R) : Except TensorError (Tensor R) := do
  let batch_size := hidden_states.shape.headD 0
  let num_experts := last routing_weights.shape
  let hidden_states ← view_infer hidden_states [] [H]
  let expert_mask ← one_hot router_indices (num_experts + 1)
  let expert_mask := expert_mask.permute [2, 1, 0]
  let expert_hit := nonzero ((expert_mask.sum 2).sum 1)
  let next_states := expert_hit.foldl
    (self.add_expert hidden_states routing_weights expert_mask num_experts)
      (zeros hidden_states.shape)
  view_infer next_states [batch_size] [H]

def experts_forward_device (hidden_states routing_weights : Tensor R) :
    Except TensorError (Tensor R) := do
  let batch_size := hidden_states.shape.headD 0
  let num_experts := last routing_weights.shape
  let hidden_states ← view_infer hidden_states [] [H]
  let hidden_states ← view_infer (hidden_states.repeats [num_experts, 1]) [num_experts] [H]
  let gate_up := matmul hidden_states self.experts.gate_up_proj +
    self.experts.gate_up_proj_bias.unsqueeze 1
  let next_states := matmul (self.activated gate_up) self.experts.down_proj
  let next_states := next_states + self.experts.down_proj_bias.unsqueeze 1
  let next_states ← view_infer next_states [num_experts, batch_size] [H]
  let weights ← view_infer (routing_weights.permute [1, 0]) [num_experts, batch_size] []
  return (next_states * weights.unsqueeze 3).sum 0

end GptOssExperts

end TTXla.TTTorch

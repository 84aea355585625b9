import TTXla.TTTorch.CustomOps.MoE

-- The sparse MLP modules, from the output of the router on.
namespace TTXla.TTTorch

open Tensor

inductive ActivationType where
  | gpt_oss
  | deepseek

-- The activation, over any sigmoid and SiLU.
structure Activation (R : Type) where
  activation_type : ActivationType
  sigmoid : R → R
  silu : R → R
  alpha : R
  limit : R

-- The weights of `E` experts, with the gates and ups interleaved.
structure Experts (R : Type) (E H I : Nat) where
  gate_up_proj : Tensor R
  gate_up_proj_bias : Tensor R
  down_proj : Tensor R
  down_proj_bias : Tensor R
  gate_up_proj_shape : gate_up_proj.shape = [E, H, I * 2]
  gate_up_proj_bias_shape : gate_up_proj_bias.shape = [E, I * 2]
  down_proj_shape : down_proj.shape = [E, I, H]
  down_proj_bias_shape : down_proj_bias.shape = [E, H]

-- Each token has `K` different experts.
structure TopK (T E K : Nat) where
  indices : Tensor Nat
  indices_shape : indices.shape = [T, K]
  lt : ∀ t < T, ∀ k < K, indices.get [t, k] < E
  distinct : ∀ t < T, ∀ k < K, ∀ k' < K, indices.get [t, k] = indices.get [t, k'] → k = k'

variable {R : Type} [CommRing R] [LinearOrder R] {E H I : Nat}

-- The activation of the gates and ups.
def Activation.apply (act : Activation R) (gate_out up_out : Tensor R) : Tensor R :=
  match act.activation_type with
  | .deepseek => gate_out.map act.silu * up_out
  | .gpt_oss =>
      let gate_out := gate_out.clampMax act.limit
      let up_out := up_out.clamp (-act.limit) act.limit
      let glu := gate_out * (gate_out.map fun a => a * act.alpha).map act.sigmoid
      up_out.map (fun a => a + 1) * glu

structure A2aSparseMLP (R : Type) (E H I : Nat) where
  experts : Experts R E H I
  act : Activation R
  num_experts_per_tok : Nat
  dispatch_devices : Nat
  use_dense_matmul : Bool
  use_fused_remap : Bool

namespace A2aSparseMLP

variable (self : A2aSparseMLP R E H I)

-- The size of a group of tokens.
def M : Nat := 32

-- The shapes that `forward` accepts, and how it groups the tokens: along the sequence where it
-- can, and along the batch otherwise.
def split_seq (seq_len : Nat) : Bool := seq_len % M = 0 ∧ M ≤ seq_len

def split_bd (BD : Nat) : Bool := BD % M = 0 ∧ M ≤ BD

def dims (BD seq_len : Nat) : Nat × Nat :=
  if split_seq seq_len then (BD, seq_len / M) else (BD / M, seq_len)

-- Reshape dispatched for matmul.
def group_tokens (dispatched : Tensor R) (BD seq_len dim_b hidden_size : Nat) : Tensor R :=
  if split_seq seq_len then dispatched.view [BD, seq_len / M, M, hidden_size]
  else if dim_b = 1 then dispatched.view [BD / M, 1, M, hidden_size]
  else (dispatched.view [BD / M, M, seq_len, hidden_size]).permute [0, 2, 1, 3]

def activate (gate_up_out : Tensor R) : Tensor R :=
  self.act.apply (gate_up_out.slice 0 2 I) (gate_up_out.slice 1 2 I)

-- Dense matmul: all experts, for all tokens.
def dense_outputs (hidden_4d : Tensor R) (dim_a dim_b hidden_size : Nat) : Tensor R :=
  let gate_up_proj := self.experts.gate_up_proj.unsqueeze 0
  let down_proj := self.experts.down_proj.view [1, E, I, H]
  let hidden_5d := hidden_4d.unsqueeze 2
  let gate_up_out := (matmul hidden_5d gate_up_proj).permute [0, 1, 3, 2, 4] +
    self.experts.gate_up_proj_bias
  let activated := self.activate gate_up_out
  let activated_reshaped := (activated.permute [0, 1, 3, 2, 4]).view [dim_a * dim_b, E, M, I]
  let down_out := matmul activated_reshaped down_proj
  (down_out.view [dim_a, dim_b, E, M, hidden_size]).permute [0, 1, 3, 2, 4] +
    self.experts.down_proj_bias

-- The groups of tokens times the experts that the mask names for them.
def sparse_outputs (hidden_4d sparsity : Tensor R) (dim_a dim_b hidden_size : Nat) :
    Option (Tensor R) := do
  let gate_up_proj := self.experts.gate_up_proj.unsqueeze 0
  let down_proj := self.experts.down_proj.view [1, E, I, H]
  let gate_up_out ← sparse_matmul hidden_4d gate_up_proj sparsity false true
  let gate_up_out := (gate_up_out.squeeze 2).permute [0, 1, 3, 2, 4] +
    self.experts.gate_up_proj_bias
  let activated := self.activate gate_up_out
  let activated_reshaped := (activated.permute [0, 1, 3, 2, 4]).view [dim_a * dim_b, E, M, I]
  let sparsity_down := sparsity.view [1, 1, dim_a * dim_b, E]
  let down_out ← sparse_matmul activated_reshaped down_proj sparsity_down true false
  return (down_out.view [dim_a, dim_b, E, M, hidden_size]).permute [0, 1, 3, 2, 4] +
    self.experts.down_proj_bias

-- The mask of the fused path: one row for each group of consecutive tokens.
def fused_sparsity (router_logits : Tensor R) (metadata : Tensor Nat) (dim_a dim_b : Nat) :
    Option (Tensor R) := do
  let topk_repeated := router_logits.repeats [self.dispatch_devices, 1, 1]
  let topk_tensor := topk_repeated.unsqueeze 0
  let (_, sparsity_remap) ← moe_expert_token_remap topk_tensor metadata M
  return sparsity_remap.view [dim_a, dim_b, 1, E]

-- The mask of the manual path.
def manual_sparsity (metadata : Tensor Nat) (BD seq_len : Nat) : Tensor R :=
  let K := self.num_experts_per_tok
  if split_seq seq_len then
    let metadata_full := (metadata.select 0).view [BD, seq_len / M, M, K]
    let metadata_flat := metadata_full.view [BD, seq_len / M * M, K]
    let sparsity_flat := (zeros [BD, seq_len / M * M, 1, E] : Tensor R).scatterLast
      (metadata_flat.unsqueeze 2) (ones [BD, seq_len / M * M, 1, K])
    (((sparsity_flat.view [BD, seq_len / M, M, E]).sum 2).clampMax 1).unsqueeze 2
  else
    let metadata_full := (metadata.select 0).view [BD / M, M, seq_len, K]
    let metadata_flat := metadata_full.view [BD / M * M, seq_len, K]
    let sparsity_flat := (zeros [BD / M * M, seq_len, 1, E] : Tensor R).scatterLast
      (metadata_flat.unsqueeze 2) (ones [BD / M * M, seq_len, 1, K])
    (((sparsity_flat.view [BD / M, M, seq_len, E]).sum 1).clampMax 1).unsqueeze 2

-- Reshape for combine: the tokens in their order again.
def ungroup (down_out : Tensor R) (BD seq_len dim_b hidden_size : Nat) : Tensor R :=
  if split_seq seq_len then
    (down_out.permute [3, 0, 1, 2, 4]).view [E, BD, seq_len, hidden_size]
  else if dim_b = 1 then
    (((down_out.squeeze 1).permute [2, 0, 1, 3]).view [E, BD, hidden_size]).unsqueeze 1
  else (down_out.permute [3, 0, 2, 1, 4]).view [E, BD, seq_len, hidden_size]

-- `torch.einsum("te,tke->tk", scores, one_hot)`.
def gather_weights (scores one_hot : Tensor R) (T K : Nat) : Tensor R where
  shape := [T, K]
  get := fun is => match is with
    | [t, k] => ∑ e ∈ Finset.range E, scores.get [t, e] * one_hot.get [t, k, e]
    | _ => 0

-- The expert computation, on one of the three paths.
def expert_outputs (hidden_4d router_logits : Tensor R) (metadata : Tensor Nat)
    (BD seq_len hidden_size : Nat) : Option (Tensor R) :=
  let (dim_a, dim_b) := dims BD seq_len
  if self.use_dense_matmul then some (self.dense_outputs hidden_4d dim_a dim_b hidden_size)
  else if self.use_fused_remap then do
    let sparsity ← self.fused_sparsity router_logits metadata dim_a dim_b
    self.sparse_outputs hidden_4d sparsity dim_a dim_b hidden_size
  else
    self.sparse_outputs hidden_4d (self.manual_sparsity metadata BD seq_len) dim_a dim_b
      hidden_size

-- The outputs of the slots of each token, with their weights.
def weighted_sum (combined topk_weights : Tensor R) (batch_size seq_len : Nat) : Tensor R :=
  let K := self.num_experts_per_tok
  if seq_len = 1 then
    let topk_weights := ((topk_weights.view [batch_size, K]).permute [1, 0]).unsqueeze 2
    ((combined.squeeze 1 * topk_weights).sum 0).unsqueeze 1
  else
    let topk_weights :=
      ((topk_weights.view [batch_size, seq_len, K]).permute [2, 0, 1]).unsqueeze 3
    (combined * topk_weights).sum 0

-- `forward` after the CPU shortcut.
def forward (hidden_states router_logits router_scores : Tensor R)
    (router_indices : Tensor Nat) : Option (Tensor R) :=
  match hidden_states.shape with
  | [batch_size, seq_len, hidden_size] => do
      let K := self.num_experts_per_tok
      let router_logits := router_logits.view [batch_size, seq_len, E]
      let router_indices := router_indices.view [batch_size, seq_len, K]
      let x := hidden_states.view [batch_size, 1, seq_len, hidden_size]
      let expert_indices := router_indices.view [batch_size, 1, seq_len, K]
      let (dispatched, metadata) := all_to_all_dispatch x expert_indices self.dispatch_devices
      let BD := dispatched.shape.getD 1 0
      guard (split_seq seq_len ∨ split_bd BD)
      let dim_b := (dims BD seq_len).2
      let hidden_4d := group_tokens dispatched BD seq_len dim_b hidden_size
      let down_out ← self.expert_outputs hidden_4d router_logits metadata BD seq_len hidden_size
      let down_out := ungroup (E := E) down_out BD seq_len dim_b hidden_size
      let decode_mode := dim_b = 1 ∧ ¬split_seq seq_len
      let combined ← all_to_all_combine down_out metadata self.dispatch_devices K
        (if decode_mode then 2 else 1)
      let indices_flat := router_indices.view [batch_size * seq_len, K]
      let one_hot : Tensor R := oneHot indices_flat E
      let topk_weights := gather_weights (E := E) router_scores one_hot (batch_size * seq_len) K
      return self.weighted_sum combined topk_weights batch_size seq_len
  | _ => none

end A2aSparseMLP

-- One matrix of indices for all tokens, and masks for single tokens.
structure SparseMLP (R : Type) (E H I : Nat) where
  experts : Experts R E H I
  num_experts_per_tok : Nat
  sigmoid : R → R
  alpha : R
  limit : R

namespace SparseMLP

variable (self : SparseMLP R E H I)

def act : Activation R where
  activation_type := .gpt_oss
  sigmoid := self.sigmoid
  silu := id
  alpha := self.alpha
  limit := self.limit

-- Gate and up of each token, split and activated.
def activated (gate_up_out : Tensor R) : Tensor R :=
  self.act.apply (gate_up_out.slice 0 2 I) (gate_up_out.slice 1 2 I)

def forward (hidden_states router_scores : Tensor R) (router_indices : Tensor Nat) :
    Option (Tensor R) :=
  match hidden_states.shape with
  | [batch_size, seq_len, hidden_size] => do
      let K := self.num_experts_per_tok
      let topk_indices_unsqueezed := router_indices.view [batch_size, seq_len, 1, K]
      let sparsity := (zeros [batch_size, seq_len, 1, E] : Tensor R).scatterLast
        topk_indices_unsqueezed (ones [batch_size, seq_len, 1, K])
      let hidden_4d := hidden_states.view [batch_size, seq_len, 1, hidden_size]
      let gate_up_proj := self.experts.gate_up_proj.unsqueeze 0
      let gate_up_out ← sparse_matmul hidden_4d gate_up_proj sparsity false true
      let gate_up_out := gate_up_out.view [batch_size, seq_len, E, I * 2] +
        self.experts.gate_up_proj_bias
      let activated := self.activated gate_up_out
      let activated_reshaped := activated.view [batch_size * seq_len, E, 1, I]
      let sparsity_down := sparsity.view [1, 1, batch_size * seq_len, E]
      let down_proj := self.experts.down_proj.view [1, E, I, hidden_size]
      let down_out ← sparse_matmul activated_reshaped down_proj sparsity_down true false
      let down_out := down_out.squeeze 2 + self.experts.down_proj_bias
      let scores_flat := router_scores.view [batch_size * seq_len, K]
      let indices_flat := router_indices.view [batch_size * seq_len, K]
      let scattered := (zeros [batch_size * seq_len, E] : Tensor R).scatterLast indices_flat
        scores_flat
      let output := (down_out * scattered.unsqueeze 2).sum 1
      return output.view [batch_size, seq_len, hidden_size]
  | _ => none

end SparseMLP

-- The gates and ups one after the other.
structure A2aSparseStackedMlp (R : Type) (E H I : Nat) where
  gate_up_proj : Tensor R
  gate_up_proj_bias : Tensor R
  down_proj : Tensor R
  down_proj_bias : Tensor R
  num_experts_per_tok : Nat
  num_devices : Nat
  sigmoid : R → R
  alpha : R
  limit : R

namespace A2aSparseStackedMlp

-- `__init__`, from the experts of the original module. `build_expert_mapping` takes only a
-- number of devices that divides the number of experts.
def init (original : SparseMLP R E H I) (num_devices : Nat) :
    Option (A2aSparseStackedMlp R E H I) := do
  let orig_w := original.experts.gate_up_proj
  let orig_b := original.experts.gate_up_proj_bias
  guard (num_devices ≠ 0 ∧ E % num_devices = 0)
  return {
    gate_up_proj := (catLast (orig_w.slice 0 2 I) (orig_w.slice 1 2 I)).unsqueeze 0
    gate_up_proj_bias := catLast (orig_b.slice 0 2 I) (orig_b.slice 1 2 I)
    down_proj := original.experts.down_proj.view [1, E, I, H]
    down_proj_bias := original.experts.down_proj_bias
    num_experts_per_tok := original.num_experts_per_tok
    num_devices := num_devices
    sigmoid := original.sigmoid
    alpha := original.alpha
    limit := original.limit }

variable (self : A2aSparseStackedMlp R E H I)

def activated (gate_up_out : Tensor R) : Tensor R :=
  let gate_up_out := gate_up_out.clampMax self.limit
  let gate_out := gate_up_out.slice 0 1 I
  let up_out := gate_up_out.slice I 1 I
  let up_out := up_out.clampMin (-self.limit)
  let glu := gate_out * (gate_out.map fun a => a * self.alpha).map self.sigmoid
  up_out.map (fun a => a + 1) * glu

def forward (hidden_states router_scores : Tensor R) (router_indices : Tensor Nat) :
    Option (Tensor R) :=
  match hidden_states.shape with
  | [batch_size, seq_len, hidden_size] => do
      let K := self.num_experts_per_tok
      let x := hidden_states.view [batch_size, 1, seq_len, hidden_size]
      let expert_indices := router_indices.view [batch_size, 1, seq_len, K]
      let (dispatched, metadata) := all_to_all_dispatch x expert_indices self.num_devices
      let BD := dispatched.shape.getD 1 0
      let metadata_indices := metadata.view [BD, seq_len, 1, K]
      let sparsity := (zeros [BD, seq_len, 1, E] : Tensor R).scatterLast metadata_indices
        (ones [BD, seq_len, 1, K])
      let hidden_4d := dispatched.view [BD, seq_len, 1, hidden_size]
      let gate_up_out ← sparse_matmul hidden_4d self.gate_up_proj sparsity false true
      let gate_up_out := gate_up_out.view [BD, seq_len, E, I * 2] + self.gate_up_proj_bias
      let activated := self.activated gate_up_out
      let activated_reshaped := activated.view [BD * seq_len, E, 1, I]
      let sparsity_down := sparsity.view [1, 1, BD * seq_len, E]
      let down_out ← sparse_matmul activated_reshaped self.down_proj sparsity_down true false
      let down_out := down_out.squeeze 2 + self.down_proj_bias
      let down_out := (down_out.view [BD, seq_len, E, hidden_size]).permute [2, 0, 1, 3]
      let combined ← all_to_all_combine down_out metadata self.num_devices K 1
      let topk_weights := ((router_scores.view [batch_size, seq_len, K]).permute
        [2, 0, 1]).unsqueeze 3
      let output := (combined * topk_weights).sum 0
      return output.view [batch_size, seq_len, hidden_size]
  | _ => none

end A2aSparseStackedMlp

end TTXla.TTTorch

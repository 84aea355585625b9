import Mathlib.Data.List.ReduceOption
import TTXla.TTTorch.ExpertMapping
import TTXla.TTTorch.GptOssExperts

-- The MoE blocks that `enable_sparse_mlp` replaces, and what it puts in their place.
namespace TTXla.TTTorch

open Excepts Tensor

inductive DeviceType where
  | cpu
  | xla

inductive ModuleError where
  -- a result of another arity is unpacked, or there are experts of other processes
  | ValueError
  -- a module without a forward function is called
  | NotImplementedError
  | AssertionError
  | AttributeError
  | IndexError
  | tensor (e : TensorError)
  | mapping (e : MappingError)

-- What routers return.
inductive RouterOutput (R : Type) where
  | pair (scores : Tensor R) (indices : Tensor Nat)
  | triple (router_logits router_scores : Tensor R) (router_indices : Tensor Nat)

variable {R : Type}

-- `router_logits, router_scores, router_indices = ...`.
def RouterOutput.unpack :
    RouterOutput R → Except ModuleError (Tensor R × Tensor R × Tensor Nat)
  | pair _ _ => .error .ValueError
  | triple router_logits router_scores router_indices =>
      .ok (router_logits, router_scores, router_indices)

-- `t.view(*shape)`.
def view_checked {α : Type} (t : Tensor α) (shape : List Nat) :
    Except TensorError (Tensor α) := do
  ensure (t.shape.prod = shape.prod) .invalid_shape
  return t.view shape

def raised {α : Type} (x : Except TensorError α) : Except ModuleError α :=
  x.mapError .tensor

-- What `A2aSparseMLP` reads from the module that it replaces. `act` has the `alpha` and `limit` of
-- the experts, or the defaults.
structure MoEModule (R : Type) (E H I : Nat) where
  router : Tensor R → Except ModuleError (RouterOutput R)
  experts : Experts R E H I
  -- the forward function of the experts, when they have one
  experts_forward : Option (DeviceType → Tensor R → Tensor Nat → Tensor R →
    Except ModuleError (Tensor R))
  act : Activation R

variable [CommRing R] [LinearOrder R] {E H I : Nat}

structure A2aModule (R : Type) (E H I : Nat) extends MoEModule R E H I where
  mlp : A2aSparseMLP R E H I

namespace A2aModule

-- `A2aSparseMLP.__init__`.
def init (original_mlp : MoEModule R E H I) (num_experts_per_tok num_devices : Nat)
    (activation_type : ActivationType) (dispatch_devices : Nat) :
    Except ModuleError (A2aModule R E H I) := do
  let _ ← (build_expert_mapping E num_devices none).mapError .mapping
  return {
    toMoEModule := original_mlp
    mlp := {
      experts := original_mlp.experts
      act := { original_mlp.act with activation_type := activation_type }
      num_experts_per_tok := num_experts_per_tok
      dispatch_devices := dispatch_devices
      use_dense_matmul := false
      use_fused_remap := true } }

-- The output of the experts: in a loop on the CPU, and through the `tt` operators otherwise.
def experts_outputs (self : A2aModule R E H I) (device : DeviceType)
    (hidden_states hidden_flat router_logits router_scores : Tensor R)
    (router_indices : Tensor Nat) : Except ModuleError (Tensor R) :=
  match device with
  | .cpu => do
      let experts_forward ← get self.experts_forward .NotImplementedError
      let indices_flat ← raised (view_checked router_indices
        [hidden_flat.shape.headD 0, self.mlp.num_experts_per_tok])
      let routed_out ← experts_forward device hidden_flat indices_flat router_scores
      raised (view_checked routed_out hidden_states.shape)
  | .xla => get (self.mlp.forward hidden_states router_logits router_scores router_indices)
      .AssertionError

-- `A2aSparseMLP.forward`, with the router.
def forward (self : A2aModule R E H I) (device : DeviceType) (hidden_states : Tensor R) :
    Except ModuleError (Tensor R × Tensor R) :=
  match hidden_states.shape with
  | [batch_size, seq_len, hidden_size] => do
      let K := self.mlp.num_experts_per_tok
      let hidden_flat := hidden_states.view [batch_size * seq_len, hidden_size]
      let router_output ← self.router hidden_flat
      let (router_logits, router_scores, router_indices) ← router_output.unpack
      let router_logits ← raised (view_infer router_logits [batch_size, seq_len] [])
      let router_indices ← raised (view_checked router_indices [batch_size, seq_len, K])
      let output ← self.experts_outputs device hidden_states hidden_flat router_logits
        router_scores router_indices
      return (output, router_scores)
  | _ => .error .ValueError

end A2aModule

-- `GptOssTopKRouter`, over any `torch.topk` and softmax.
structure GptOssTopKRouter (R : Type) (E H : Nat) where
  weight : Tensor R
  bias : Tensor R
  top_k : Nat
  topk : Tensor R → Nat → Except TensorError (Tensor R × Tensor Nat)
  softmax : Tensor R → Tensor R
  weight_shape : weight.shape = [E, H]
  bias_shape : bias.shape = [E]

namespace GptOssTopKRouter

variable (self : GptOssTopKRouter R E H)

def route (hidden_states : Tensor R) : Except TensorError (RouterOutput R) := do
  let router_logits := matmul hidden_states (self.weight.permute [1, 0]) + self.bias
  let (router_top_value, router_indices) ← self.topk router_logits self.top_k
  let router_top_value := self.softmax router_top_value
  let router_scores := (zeros router_logits.shape : Tensor R).scatterLast router_indices
    router_top_value
  return .triple router_logits router_scores router_indices

def forward (hidden_states : Tensor R) : Except TensorError (RouterOutput R) := do
  let hidden_states ← view_infer hidden_states [] [H]
  self.route hidden_states

end GptOssTopKRouter

structure GptOssMLP (R : Type) (E H I : Nat) where
  router : GptOssTopKRouter R E H
  experts : GptOssExperts R E H I
  activation_type : experts.act.activation_type = .gpt_oss

namespace GptOssMLP

variable (self : GptOssMLP R E H I)

def experts_forward (device : DeviceType) (hidden_states : Tensor R)
    (router_indices : Tensor Nat) (routing_weights : Tensor R) : Except ModuleError (Tensor R) :=
  match device with
  | .cpu => raised (self.experts.experts_forward_cpu hidden_states router_indices routing_weights)
  | .xla => raised (self.experts.experts_forward_device hidden_states routing_weights)

def forward (device : DeviceType) (hidden_states : Tensor R) :
    Except ModuleError (Tensor R × Tensor R) := do
  let router_output ← raised (self.router.forward hidden_states)
  let (_, router_scores, router_indices) ← router_output.unpack
  let routed_out ← self.experts_forward device hidden_states router_indices router_scores
  return (routed_out, router_scores)

def toMoEModule : MoEModule R E H I where
  router := fun hidden_states => raised (self.router.forward hidden_states)
  experts := self.experts.experts
  experts_forward := some self.experts_forward
  act := self.experts.act

end GptOssMLP

-- An expert with its gates and ups apart.
structure DeepseekV3MLP (R : Type) (H I : Nat) where
  gate_proj : Tensor R
  up_proj : Tensor R
  down_proj : Tensor R
  gate_proj_shape : gate_proj.shape = [I, H]
  up_proj_shape : up_proj.shape = [I, H]
  down_proj_shape : down_proj.shape = [H, I]

-- A block whose gate returns the indices and the weights. Its gate and its forward function are
-- those of any class that has `deepseek` in its name.
structure DeepseekV3MoE (R : Type) (H I : Nat) where
  gate : Tensor R → Except ModuleError (Tensor Nat × Tensor R)
  n_routed_experts : Nat
  num_experts_per_tok : Nat
  experts : List (Option (DeepseekV3MLP R H I))
  act : Activation R
  shared_experts : Option (Tensor R → Except ModuleError (Tensor R))
  forward : DeviceType → Tensor R → Except ModuleError (Tensor R)

namespace DeepseekV3MoEToA2AAdapter

-- `RouterAdapter.forward`.
def router_forward (gate : Tensor R → Except ModuleError (Tensor Nat × Tensor R))
    (n_experts : Nat) (hidden_states : Tensor R) : Except ModuleError (RouterOutput R) := do
  let (topk_idx, topk_weight) ← gate hidden_states
  let bsz_seq := topk_idx.shape.headD 0
  let scores := (zeros [bsz_seq, n_experts] : Tensor R).scatterLast topk_idx topk_weight
  return .pair scores topk_idx

-- `StackedExperts`: the gates in the even columns, the ups in the odd ones. It has no forward
-- function.
def stacked_experts (experts : List (DeepseekV3MLP R H I)) : Experts R experts.length H I where
  gate_up_proj := {
    shape := [experts.length, H, I * 2]
    get := fun is => match experts[is.getD 0 0]? with
      | some exp => (if is.getD 2 0 % 2 = 0 then exp.gate_proj else exp.up_proj).get
          [is.getD 2 0 / 2, is.getD 1 0]
      | none => 0 }
  gate_up_proj_bias := zeros [experts.length, I * 2]
  down_proj := {
    shape := [experts.length, I, H]
    get := fun is => match experts[is.getD 0 0]? with
      | some exp => exp.down_proj.get [is.getD 2 0, is.getD 1 0]
      | none => 0 }
  down_proj_bias := zeros [experts.length, H]
  gate_up_proj_shape := rfl
  gate_up_proj_bias_shape := rfl
  down_proj_shape := rfl
  down_proj_bias_shape := rfl

-- The experts of this process.
def experts_list (moe_module : DeepseekV3MoE R H I) : List (DeepseekV3MLP R H I) :=
  moe_module.experts.reduceOption

def init (moe_module : DeepseekV3MoE R H I) :
    Except ModuleError (MoEModule R (experts_list moe_module).length H I) := do
  let count := if experts_list moe_module = [] then moe_module.experts.length
    else (experts_list moe_module).length
  ensure (count = moe_module.n_routed_experts) .ValueError
  ensure (experts_list moe_module ≠ []) .AttributeError
  return {
    router := router_forward moe_module.gate moe_module.n_routed_experts
    experts := stacked_experts (experts_list moe_module)
    experts_forward := none
    act := moe_module.act }

end DeepseekV3MoEToA2AAdapter

-- What a block returns: the output, and the scores when it returns them.
abbrev BlockOutput (R : Type) := Tensor R × Option (Tensor R)

-- `A2aSparseMLPWithSharedExperts.forward`.
def with_shared_experts (a2a_mlp : A2aModule R E H I)
    (shared_experts : Option (Tensor R → Except ModuleError (Tensor R))) (device : DeviceType)
    (hidden_states : Tensor R) : Except ModuleError (BlockOutput R) := do
  let (out, _) ← a2a_mlp.forward device hidden_states
  match shared_experts with
  | some shared_experts => do
      let shared ← shared_experts hidden_states
      return (out + shared, none)
  | none => return (out, none)

-- The blocks of the two kinds.
inductive MoEBlock (R : Type) where
  | deepseek {H I : Nat} (moe_module : DeepseekV3MoE R H I)
  | stacked {E H I : Nat} (mlp : GptOssMLP R E H I)

namespace MoEBlock

def forward : MoEBlock R → DeviceType → Tensor R → Except ModuleError (BlockOutput R)
  | deepseek moe_module, device, hidden_states => do
      let out ← moe_module.forward device hidden_states
      return (out, none)
  | stacked mlp, device, hidden_states => do
      let (out, router_scores) ← mlp.forward device hidden_states
      return (out, some router_scores)

-- `replace_mlp` of `enable_sparse_mlp`: the forward function of the new module.
def replace_mlp (mesh : Nat × Nat) (cluster_axis : Nat) :
    MoEBlock R → Except ModuleError (DeviceType → Tensor R → Except ModuleError (BlockOutput R))
  | deepseek moe_module => do
      let dispatch_devices ← get [mesh.1, mesh.2][cluster_axis]? .IndexError
      let adapter ← DeepseekV3MoEToA2AAdapter.init moe_module
      let a2a_mlp ← A2aModule.init adapter moe_module.num_experts_per_tok (mesh.1 * mesh.2)
        .deepseek dispatch_devices
      return with_shared_experts a2a_mlp moe_module.shared_experts
  | stacked mlp => do
      let dispatch_devices ← get [mesh.1, mesh.2][cluster_axis]? .IndexError
      let sparse_mlp ← A2aModule.init mlp.toMoEModule mlp.router.top_k (mesh.1 * mesh.2) .gpt_oss
        dispatch_devices
      return fun device hidden_states => do
        let (out, router_scores) ← sparse_mlp.forward device hidden_states
        return (out, some router_scores)

end MoEBlock

end TTXla.TTTorch

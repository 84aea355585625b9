import TTXla.TTTorch.GptOssExperts.Branches
import TTXla.TTTorch.MoEAdapters
import TTXla.TTTorch.SparseMLP.Equivalence

-- Which blocks compute the same after their replacement.
namespace TTXla.TTTorch

open Excepts Tensor

variable {R : Type} [CommRing R] [LinearOrder R] {E H I : Nat}

-- What `__init__` keeps of the original module.
omit [CommRing R] [LinearOrder R] in
theorem A2aModule.init_spec {original_mlp : MoEModule R E H I} {K num_devices D : Nat}
    {activation_type : ActivationType} {self : A2aModule R E H I}
    (h : init original_mlp K num_devices activation_type D = .ok self) :
    num_devices ≠ 0 ∧ self.toMoEModule = original_mlp ∧
      self.mlp = ⟨original_mlp.experts, { original_mlp.act with activation_type }, K, D,
        false, true⟩ := by
  obtain ⟨mapping, hmapping, h⟩ := bind_eq_ok.mp h
  cases h
  refine ⟨fun hzero => ?_, rfl, rfl⟩
  rw [hzero] at hmapping
  cases hmapping

section Deepseek

-- A router that returns two results is not unpacked.
theorem A2aModule.forward_of_pair {self : A2aModule R E H I}
    (hrouter : ∀ x out, self.router x = .ok out → ∃ scores indices, out = .pair scores indices)
    (device : DeviceType) (hidden_states : Tensor R) :
    ∃ e, self.forward device hidden_states = .error e := by
  cases hforward : self.forward device hidden_states with
  | error e => exact ⟨e, rfl⟩
  | ok out =>
      unfold forward at hforward
      split at hforward
      · obtain ⟨router_output, hrouted, hforward⟩ := bind_eq_ok.mp hforward
        obtain ⟨scores, indices, rfl⟩ := hrouter _ _ hrouted
        obtain ⟨_, hunpack, -⟩ := bind_eq_ok.mp hforward
        cases hunpack
      · cases hforward

omit [LinearOrder R] in
theorem router_forward_pair {gate : Tensor R → Except ModuleError (Tensor Nat × Tensor R)}
    {n_experts : Nat} {hidden_states : Tensor R} {out : RouterOutput R}
    (h : DeepseekV3MoEToA2AAdapter.router_forward gate n_experts hidden_states = .ok out) :
    ∃ scores indices, out = .pair scores indices := by
  obtain ⟨_, _, h⟩ := bind_eq_ok.mp h
  cases h
  exact ⟨_, _, rfl⟩

theorem deepseek_raises {moe_module : DeepseekV3MoE R H I} {mesh : Nat × Nat}
    {cluster_axis : Nat}
    {module : DeviceType → Tensor R → Except ModuleError (BlockOutput R)}
    (h : (MoEBlock.deepseek moe_module).replace_mlp mesh cluster_axis = .ok module)
    (device : DeviceType) (hidden_states : Tensor R) :
    ∃ e, module device hidden_states = .error e := by
  obtain ⟨dispatch_devices, -, h⟩ := bind_eq_ok.mp h
  obtain ⟨adapter, hadapter, h⟩ := bind_eq_ok.mp h
  obtain ⟨a2a_mlp, ha2a, h⟩ := bind_eq_ok.mp h
  cases h
  obtain ⟨_, -, hadapter⟩ := bind_eq_ok.mp hadapter
  obtain ⟨_, -, hadapter⟩ := bind_eq_ok.mp hadapter
  cases hadapter
  have hpair : ∀ x out, a2a_mlp.router x = .ok out →
      ∃ scores indices, out = .pair scores indices := by
    intro x out hout
    rw [(A2aModule.init_spec ha2a).2.1] at hout
    exact router_forward_pair hout
  obtain ⟨e, he⟩ := A2aModule.forward_of_pair hpair device hidden_states
  refine ⟨e, ?_⟩
  unfold with_shared_experts
  rw [he]
  rfl

-- The scores of the adapter at the indices are the weights of the gate.
omit [LinearOrder R] in
theorem router_forward_scores {gate : Tensor R → Except ModuleError (Tensor Nat × Tensor R)}
    {n_experts T K : Nat} {hidden_states topk_weight : Tensor R} {topk_idx : Tensor Nat}
    (hgate : gate hidden_states = .ok (topk_idx, topk_weight)) (hshape : topk_idx.shape = [T, K])
    (hdistinct : ∀ t < T, ∀ k < K, ∀ k' < K,
      topk_idx.get [t, k] = topk_idx.get [t, k'] → k = k') :
    ∃ scores, DeepseekV3MoEToA2AAdapter.router_forward gate n_experts hidden_states =
        .ok (.pair scores topk_idx) ∧ ∀ t < T, ∀ k < K,
      scores.get [t, topk_idx.get [t, k]] = topk_weight.get [t, k] := by
  unfold DeepseekV3MoEToA2AAdapter.router_forward
  rw [hgate]
  refine ⟨_, rfl, fun t ht k hk => ?_⟩
  have hlast : last topk_idx.shape = K := by
    rw [hshape]
    rfl
  rw [scatterLast_zeros, hlast]
  · rw [Finset.sum_eq_single k]
    · exact if_pos rfl
    · intro k' hk' hne
      exact if_neg fun heq => hne (hdistinct t ht k' (Finset.mem_range.mp hk') k hk heq)
    · intro hnot
      exact absurd (Finset.mem_range.mpr hk) hnot
  · rw [hlast]
    exact hdistinct t ht

-- The stacked experts compute what the experts compute.
theorem stacked_experts_output (experts : List (DeepseekV3MLP R H I)) (act : Activation R)
    {e : Nat} {exp : DeepseekV3MLP R H I} (he : experts[e]? = some exp) (x : Nat → R) (h : Nat) :
    (DeepseekV3MoEToA2AAdapter.stacked_experts experts).output act e x h =
      ∑ i ∈ Finset.range I, act.scalar
        (∑ j ∈ Finset.range H, x j * exp.gate_proj.get [i, j])
        (∑ j ∈ Finset.range H, x j * exp.up_proj.get [i, j]) * exp.down_proj.get [h, i] := by
  have hcolumn : ∀ n, (DeepseekV3MoEToA2AAdapter.stacked_experts experts).gate_up 1 e x n =
      ∑ j ∈ Finset.range H, x j *
        (if n % 2 = 0 then exp.gate_proj else exp.up_proj).get [n / 2, j] := by
    intro n
    have hget : ∀ j, (DeepseekV3MoEToA2AAdapter.stacked_experts experts).gate_up_proj.get
        [e, j, n] = (if n % 2 = 0 then exp.gate_proj else exp.up_proj).get [n / 2, j] := by
      intro j
      simp only [DeepseekV3MoEToA2AAdapter.stacked_experts, List.getD_cons_zero, he,
        List.getD_cons_succ]
    rw [Experts.gate_up, mul_one]
    simp only [hget]
    exact add_zero _
  have hdown : ∀ i, (DeepseekV3MoEToA2AAdapter.stacked_experts experts).down_proj.get [e, i, h] =
      exp.down_proj.get [h, i] := by
    intro i
    simp only [DeepseekV3MoEToA2AAdapter.stacked_experts, List.getD_cons_zero, he,
      List.getD_cons_succ]
  rw [Experts.output, Experts.masked_output, mul_one]
  refine (add_zero _).trans (Finset.sum_congr rfl fun i _ => ?_)
  rw [hcolumn, hcolumn, hdown, if_pos (by omega), if_neg (by omega),
    show 2 * i / 2 = i by omega, show (1 + 2 * i) / 2 = i by omega]

end Deepseek

section Router

namespace GptOssTopKRouter

variable {self : GptOssTopKRouter R E H} {T : Nat}

-- `torch.topk` returns the places of different elements of each row.
def Documented (self : GptOssTopKRouter R E H) : Prop :=
  ∀ (t : Tensor R) (T E k : Nat) (values : Tensor R) (indices : Tensor Nat), t.shape = [T, E] →
    self.topk t k = .ok (values, indices) → indices.shape = [T, k] ∧
      (∀ row < T, ∀ i < k, indices.get [row, i] < E) ∧
      ∀ row < T, ∀ i < k, ∀ j < k, indices.get [row, i] = indices.get [row, j] → i = j

omit [LinearOrder R] in
theorem route_spec (hself : self.Documented) {rows : Tensor R} {out : RouterOutput R}
    (hrows : rows.shape = [T, H]) (h : self.route rows = .ok out) :
    ∃ router_logits router_scores router_indices,
      out = .triple router_logits router_scores router_indices ∧
      router_logits.shape = [T, E] ∧
      GptOssExperts.Routed router_indices router_scores T E self.top_k := by
  obtain ⟨⟨values, indices⟩, htopk, h⟩ := bind_eq_ok.mp h
  cases h
  have hweight : (self.weight.permute [1, 0]).shape = [H, E] := by
    unfold permute
    rw [self.weight_shape]
    rfl
  have hlogits := (linear_spec hrows hweight self.bias_shape).1
  obtain ⟨hshape, hlt, hdistinct⟩ := hself _ T E self.top_k values indices hlogits htopk
  refine ⟨_, _, _, rfl, hlogits, hshape, hlogits, hlt, hdistinct, fun t ht e he hne => ?_⟩
  refine scatterLast_of_ne fun k hk => ?_
  rw [hshape] at hk
  exact hne k hk

end GptOssTopKRouter

end Router

section Views

variable {α : Type}

omit [CommRing R] [LinearOrder R] in
theorem view_checked_of {t : Tensor α} {shape : List Nat} (h : t.shape.prod = shape.prod) :
    raised (view_checked t shape) = .ok (t.view shape) := by
  unfold view_checked
  rw [ensure_of h]
  rfl

-- The elements of a view, in the first shape again.
omit [CommRing R] [LinearOrder R] in
theorem view_back_get {t : Tensor α} {ds shape is : List Nat} (hds : t.shape = ds)
    (hshape : shape ≠ []) (his : InBounds is ds) :
    ((t.view shape).view ds).get is = t.get is := by
  subst hds
  unfold view
  dsimp only
  rw [ravel_unravel hshape, unravel_ravel his]

end Views

namespace A2aModule

variable {self : A2aModule R E H I} {hidden_states router_logits router_scores : Tensor R}
  {router_indices : Tensor Nat} {B S : Nat}

-- The steps before the experts.
theorem forward_of_routed (hhidden : hidden_states.shape = [B, S, H])
    (hrouter : self.router (hidden_states.view [B * S, H]) =
      .ok (.triple router_logits router_scores router_indices))
    (hlogits : router_logits.shape = [B * S, E])
    (hindices : router_indices.shape = [B * S, self.mlp.num_experts_per_tok])
    (hpos : 0 < B * S) (device : DeviceType) :
    self.forward device hidden_states = do
      let output ← self.experts_outputs device hidden_states (hidden_states.view [B * S, H])
        (router_logits.view [B, S, E]) router_scores
          (router_indices.view [B, S, self.mlp.num_experts_per_tok])
      return (output, router_scores) := by
  have hlogits_view : raised (view_infer router_logits [B, S] []) =
      .ok (router_logits.view [B, S, E]) := by
    rw [view_infer_of_mul (n := E) (by simpa using hpos) (by rw [hlogits]; simp; ring)]
    rfl
  have hindices_view : raised (view_checked router_indices
      [B, S, self.mlp.num_experts_per_tok]) =
        .ok (router_indices.view [B, S, self.mlp.num_experts_per_tok]) :=
    view_checked_of (by rw [hindices]; simp; ring)
  unfold forward
  rw [hhidden]
  dsimp only
  rw [hrouter]
  change (do
    let router_logits ← raised (view_infer router_logits [B, S] [])
    _) = _
  rw [hlogits_view]
  change (do
    let router_indices ← raised (view_checked router_indices [B, S, _])
    _) = _
  rw [hindices_view]
  rfl

-- An empty sequence has no size for the experts.
theorem forward_of_empty (hhidden : hidden_states.shape = [B, S, H])
    (hrouter : self.router (hidden_states.view [B * S, H]) =
      .ok (.triple router_logits router_scores router_indices))
    (hlogits : router_logits.shape = [B * S, E]) (hzero : B * S = 0) (device : DeviceType) :
    self.forward device hidden_states = .error (.tensor .ambiguous_shape) := by
  unfold forward
  rw [hhidden]
  dsimp only
  rw [hrouter]
  change (do
    let router_logits ← raised (view_infer router_logits [B, S] [])
    _) = _
  rw [view_infer_of_zero (by simpa using hzero) (by rw [hlogits, hzero]; simp)]
  rfl

end A2aModule

namespace GptOssMLP

variable {mlp : GptOssMLP R E H I} {hidden_states out router_scores : Tensor R} {B S : Nat}

theorem raised_eq_ok {α : Type} {x : Except TensorError α} {a : α} :
    raised x = .ok a ↔ x = .ok a := by
  cases x with
  | error e => exact ⟨fun h => (nomatch h), fun h => (nomatch h)⟩
  | ok b => exact ⟨fun h => by cases h; rfl, fun h => by cases h; rfl⟩

-- The results of the router, which the block and its replacement share.
structure Routing (mlp : GptOssMLP R E H I) (hidden_states : Tensor R) (B S : Nat)
    (router_logits router_scores : Tensor R) (router_indices : Tensor Nat) : Prop where
  forward_eq : mlp.router.forward hidden_states =
    .ok (.triple router_logits router_scores router_indices)
  route_eq : mlp.router.route (hidden_states.view [B * S, H]) =
    .ok (.triple router_logits router_scores router_indices)
  logits_shape : router_logits.shape = [B * S, E]
  routed : GptOssExperts.Routed router_indices router_scores (B * S) E mlp.router.top_k

theorem forward_spec (hrouter : mlp.router.Documented)
    (hhidden : hidden_states.shape = [B, S, H]) {device : DeviceType}
    (h : mlp.forward device hidden_states = .ok (out, router_scores)) :
    0 < B ∧ 0 < H ∧ mlp.experts.IsWeightedSum (hidden_states.view [B * S, H]) router_scores B S
      out ∧ ∃ router_logits router_indices,
        mlp.Routing hidden_states B S router_logits router_scores router_indices := by
  have hhead : hidden_states.shape.headD 0 = B := by
    rw [hhidden]
    rfl
  have hprod : hidden_states.shape.prod = B * S * H := by
    rw [hhidden]
    simp [Nat.mul_assoc]
  obtain ⟨router_output, hforward, h⟩ := bind_eq_ok.mp h
  have hforward := raised_eq_ok.mp hforward
  obtain ⟨rows, hrows, hroute⟩ := bind_eq_ok.mp hforward
  rw [GptOssExperts.view_rows hprod] at hrows
  split at hrows
  · cases hrows
  · cases hrows
    rename_i hH
    obtain ⟨logits, scores, indices, rfl, hlogits, hrouted⟩ :=
      GptOssTopKRouter.route_spec hrouter (view_shape hidden_states [B * S, H]) hroute
    obtain ⟨_, hunpack, h⟩ := bind_eq_ok.mp h
    cases hunpack
    obtain ⟨routed_out, hexperts, h⟩ := bind_eq_ok.mp h
    cases h
    have hexperts_ok : 0 < B ∧ mlp.experts.IsWeightedSum (hidden_states.view [B * S, H])
        router_scores B S out := by
      cases device with
      | cpu =>
          have hcpu := mlp.experts.experts_forward_cpu_spec hrouted hhead hprod
          have hexperts := raised_eq_ok.mp hexperts
          split at hcpu
          · rw [hcpu] at hexperts
            cases hexperts
          · obtain ⟨sum, hsum, hweighted⟩ := hcpu
            cases hsum.symm.trans hexperts
            exact ⟨by omega, hweighted⟩
      | xla =>
          have hdevice := mlp.experts.experts_forward_device_spec hrouted.weights_shape hhead hprod
          have hexperts := raised_eq_ok.mp hexperts
          split at hdevice
          · rw [hdevice] at hexperts
            cases hexperts
          · obtain ⟨sum, hsum, hweighted⟩ := hdevice
            cases hsum.symm.trans hexperts
            exact ⟨by omega, hweighted⟩
    exact ⟨hexperts_ok.1, by omega, hexperts_ok.2, logits, indices,
      ⟨hforward, hroute, hlogits, hrouted⟩⟩

end GptOssMLP

omit [LinearOrder R] in
theorem routed_view_back {indices : Tensor Nat} {scores : Tensor R} {T K : Nat}
    {shape : List Nat} (h : GptOssExperts.Routed indices scores T E K) (hshape : shape ≠ []) :
    GptOssExperts.Routed ((indices.view shape).view [T, K]) scores T E K := by
  have hget : ∀ t < T, ∀ k < K,
      ((indices.view shape).view [T, K]).get [t, k] = indices.get [t, k] := by
    intro t ht k hk
    exact view_back_get h.indices_shape hshape (by simp [ht, hk])
  refine ⟨rfl, h.weights_shape, fun t ht k hk => ?_, fun t ht k hk k' hk' heq => ?_,
    fun t ht e he hne => ?_⟩
  · rw [hget t ht k hk]
    exact h.lt t ht k hk
  · rw [hget t ht k hk, hget t ht k' hk'] at heq
    exact h.distinct t ht k hk k' hk' heq
  · refine h.zero t ht e he fun k hk => ?_
    rw [← hget t ht k hk]
    exact hne k hk

section Paths

variable {mlp : GptOssMLP R E H I} {self : A2aModule R E H I}
  {hidden_states router_logits router_scores : Tensor R} {router_indices : Tensor Nat} {B S : Nat}

-- The loop takes the rows one by one, and the block takes them in batches.
theorem cpu_outputs_spec (hexperts : self.experts_forward = some mlp.experts_forward)
    (hK : self.mlp.num_experts_per_tok = mlp.router.top_k)
    (hhidden : hidden_states.shape = [B, S, H])
    (hrouted : GptOssExperts.Routed router_indices router_scores (B * S) E mlp.router.top_k)
    (logits : Tensor R) (hpos : 0 < B * S) (hH : 0 < H) :
    ∃ out, self.experts_outputs .cpu hidden_states (hidden_states.view [B * S, H]) logits
        router_scores (router_indices.view [B, S, mlp.router.top_k]) = .ok out ∧
      mlp.experts.IsWeightedSum (hidden_states.view [B * S, H]) router_scores B S out := by
  have hflat : GptOssExperts.Routed ((router_indices.view [B, S, mlp.router.top_k]).view
      [B * S, mlp.router.top_k]) router_scores (B * S * 1) E mlp.router.top_k := by
    rw [Nat.mul_one]
    exact routed_view_back hrouted (List.cons_ne_nil B [S, mlp.router.top_k])
  have hspec := mlp.experts.experts_forward_cpu_spec hflat
    (show (hidden_states.view [B * S, H]).shape.headD 0 = B * S from rfl)
    (by simp [view_shape])
  rw [if_neg (by omega)] at hspec
  obtain ⟨routed_out, hrouted_out, hshape, hget⟩ := hspec
  have hview : raised (view_checked routed_out hidden_states.shape) =
      .ok (routed_out.view [B, S, H]) := by
    rw [view_checked_of (by rw [hshape, hhidden]; simp [Nat.mul_assoc]), hhidden]
  refine ⟨routed_out.view [B, S, H], ?_, rfl, fun b s h hb hs hh => ?_⟩
  · unfold A2aModule.experts_outputs
    dsimp only
    rw [hexperts, hK, view_shape, List.headD_cons, view_checked_of (by simp [view_shape]; ring)]
    change (do
      let routed_out ← raised (mlp.experts.experts_forward_cpu _ _ _)
      raised (view_checked routed_out hidden_states.shape)) = _
    rw [hrouted_out]
    exact hview
  · have hposition : ravel [B, S, H] [b, s, h] = ravel [B * S, 1, H] [b * S + s, 0, h] := by
      simp only [ravel_cons, ravel_nil, List.prod_cons, List.prod_nil]
      ring
    have hrow : b * S + s < B * S := group_lt hb hs
    rw [view_get [b * S + s, 0, h] hshape (by simp [hrow, hh]) hposition,
      hget (b * S + s) 0 h hrow Nat.one_pos hh, Nat.mul_one, Nat.mul_one,
      view_view (List.cons_ne_nil _ _)]
    rfl

-- The selected experts have all the weights of a token.
omit [LinearOrder R] in
theorem sum_routed {T K : Nat} {indices : Tensor Nat} {scores : Tensor R}
    (h : GptOssExperts.Routed indices scores T E K) {t : Nat} (ht : t < T) (f : Nat → R) :
    ∑ e ∈ Finset.range E, f e * scores.get [t, e] =
      ∑ k ∈ Finset.range K, f (indices.get [t, k]) * scores.get [t, indices.get [t, k]] := by
  have hinj : Set.InjOn (fun k => indices.get [t, k]) (Finset.range K) := by
    intro k hk k' hk' heq
    exact h.distinct t ht k (Finset.mem_range.mp hk) k' (Finset.mem_range.mp hk') heq
  rw [← Finset.sum_image (f := fun e => f e * scores.get [t, e]) hinj]
  refine (Finset.sum_subset ?_ fun e he hnot => ?_).symm
  · intro e he
    obtain ⟨k, hk, rfl⟩ := Finset.mem_image.mp he
    exact Finset.mem_range.mpr (h.lt t ht k (Finset.mem_range.mp hk))
  · rw [h.zero t ht e (Finset.mem_range.mp he) fun k hk heq =>
      hnot (Finset.mem_image.mpr ⟨k, Finset.mem_range.mpr hk, heq⟩), mul_zero]

-- The remap reduces a token that selects the expert to the place of the token's group.
def Reached (top : Tensor Nat) (B S D K b s e : Nat) : Prop :=
  ∃ b' < B * D, ∃ s' < S, ∃ k < K, (b' * S + s') / A2aSparseMLP.M =
    (A2aSparseMLP.place_of S b s).1 * (A2aSparseMLP.dims (B * D) S).2 +
      (A2aSparseMLP.place_of S b s).2.1 ∧ A2aSparseMLP.selected top B S b' s' k = e

instance (top : Tensor Nat) (B S D K b s e : Nat) : Decidable (Reached top B S D K b s e) :=
  inferInstanceAs (Decidable (∃ b' < B * D, ∃ s' < S, ∃ k < K, _ ∧ _))

omit [LinearOrder R] in
theorem token_mask_eq (experts : Experts R E H I) (act : Activation R) (top : Tensor Nat)
    (B S D K b s e : Nat) :
    A2aSparseMLP.token_mask ⟨experts, act, K, D, false, true⟩ top B S b s e =
      if Reached top B S D K b s e then 1 else 0 :=
  (A2aSparseMLP.token_mask_fused _ rfl rfl top b s e).trans (if_congr Iff.rfl rfl rfl)

-- What the mask leaves out of the outputs: all of an expert but its last bias.
def lost (experts : Experts R E H I) (act : Activation R) (hidden_states scores : Tensor R)
    (top : Tensor Nat) (B S D K b s h : Nat) : R :=
  ∑ k ∈ Finset.range K, if Reached top B S D K b s (top.get [b * S + s, k]) then 0 else
    (experts.output act (top.get [b * S + s, k]) (fun j => hidden_states.get [b, s, j]) h -
      experts.down_proj_bias.get [top.get [b * S + s, k], h]) *
        scores.get [b * S + s, top.get [b * S + s, k]]

theorem masked_sum {D K : Nat} (experts : Experts R E H I) (act : Activation R)
    (hidden_states scores : Tensor R) (top : Tensor Nat) (b s h : Nat) :
    ∑ k ∈ Finset.range K, experts.masked_output act
        (A2aSparseMLP.token_mask ⟨experts, act, K, D, false, true⟩ top B S b s
          (top.get [b * S + s, k])) (top.get [b * S + s, k])
        (fun j => hidden_states.get [b, s, j]) h * scores.get [b * S + s, top.get [b * S + s, k]] +
      lost experts act hidden_states scores top B S D K b s h =
    ∑ k ∈ Finset.range K, experts.output act (top.get [b * S + s, k])
      (fun j => hidden_states.get [b, s, j]) h *
        scores.get [b * S + s, top.get [b * S + s, k]] := by
  unfold lost
  rw [← Finset.sum_add_distrib]
  refine Finset.sum_congr rfl fun k _ => ?_
  rw [token_mask_eq]
  by_cases hreached : Reached top B S D K b s (top.get [b * S + s, k])
  · rw [if_pos hreached, if_pos hreached, add_zero]
    rfl
  · rw [if_neg hreached, if_neg hreached]
    have hzero : experts.masked_output act 0 (top.get [b * S + s, k])
        (fun j => hidden_states.get [b, s, j]) h =
          experts.down_proj_bias.get [top.get [b * S + s, k], h] := by
      rw [Experts.masked_output, mul_zero, zero_add]
    rw [hzero]
    ring

-- Only the shapes that split into groups pass the assertion.
theorem forward_of_not_split (a2a : A2aSparseMLP R E H I)
    (hhidden : hidden_states.shape = [B, S, H]) (hD : 0 < a2a.dispatch_devices)
    (h : ¬(A2aSparseMLP.split_seq S ∨ A2aSparseMLP.split_bd (B * a2a.dispatch_devices)))
    (logits scores : Tensor R) (indices : Tensor Nat) :
    a2a.forward hidden_states logits scores indices = none := by
  obtain ⟨dispatched, metadata, hdispatch, hdshape, -, -, -⟩ :=
    all_to_all_dispatch_spec (view_shape hidden_states [B, 1, S, H])
      (view_shape (indices.view [B, S, a2a.num_experts_per_tok])
        [B, 1, S, a2a.num_experts_per_tok]) hD
  have hguard : guard (A2aSparseMLP.split_seq S ∨
      A2aSparseMLP.split_bd (B * a2a.dispatch_devices)) = (none : Option Unit) := if_neg h
  unfold A2aSparseMLP.forward
  rw [hhidden]
  dsimp only
  rw [hdispatch]
  dsimp only
  rw [hdshape]
  simp only [List.getD_cons_succ, List.getD_cons_zero]
  rw [hguard]
  rfl

theorem forward_view_indices (a2a : A2aSparseMLP R E H I)
    (hhidden : hidden_states.shape = [B, S, H]) (logits scores : Tensor R) (indices : Tensor Nat) :
    a2a.forward hidden_states logits scores (indices.view [B, S, a2a.num_experts_per_tok]) =
      a2a.forward hidden_states logits scores indices := by
  unfold A2aSparseMLP.forward
  rw [hhidden]
  dsimp only
  rw [view_view (List.cons_ne_nil _ _)]

variable [IsStrictOrderedRing R] {D : Nat}

-- The masked outputs, with what the mask leaves out, are the sum.
theorem xla_outputs_spec
    (hmlp : self.mlp = ⟨mlp.experts.experts, mlp.experts.act, mlp.router.top_k, D, false, true⟩)
    (hD : 0 < D) (hhidden : hidden_states.shape = [B, S, H])
    (hrouted : GptOssExperts.Routed router_indices router_scores (B * S) E mlp.router.top_k)
    (logits : Tensor R) (hsplit : A2aSparseMLP.split_seq S ∨ A2aSparseMLP.split_bd (B * D)) :
    ∃ out, self.experts_outputs .xla hidden_states (hidden_states.view [B * S, H]) logits
        router_scores (router_indices.view [B, S, mlp.router.top_k]) = .ok out ∧
      out.shape = [B, S, H] ∧ ∀ b s h, b < B → s < S → h < H → out.get [b, s, h] +
        lost mlp.experts.experts mlp.experts.act hidden_states router_scores router_indices B S D
          mlp.router.top_k b s h =
        ∑ e ∈ Finset.range E, mlp.experts.contribution (hidden_states.view [B * S, H])
          router_scores e (b * S + s) h := by
  let top : TopK (B * S) E mlp.router.top_k :=
    ⟨router_indices, hrouted.indices_shape, hrouted.lt, hrouted.distinct⟩
  obtain ⟨out, hout, hshape, hget⟩ := A2aSparseMLP.forward_spec
    ⟨mlp.experts.experts, mlp.experts.act, mlp.router.top_k, D, false, true⟩ logits router_scores
      top hhidden ⟨hD, hsplit⟩
  refine ⟨out, ?_, hshape, fun b s h hb hs hh => ?_⟩
  · unfold A2aModule.experts_outputs
    rw [hmlp]
    refine get_eq_ok.mpr (Eq.trans ?_ hout)
    exact forward_view_indices ⟨_, _, mlp.router.top_k, D, false, true⟩ hhidden _ _ _
  · have hrow : b * S + s < B * S := group_lt hb hs
    rw [hget b s h hb hs hh]
    refine (masked_sum mlp.experts.experts mlp.experts.act hidden_states router_scores
      router_indices b s h).trans ?_
    have hsum := sum_routed hrouted hrow fun e =>
      mlp.experts.experts.output mlp.experts.act e (fun j => hidden_states.get [b, s, j]) h
    refine hsum.symm.trans (Finset.sum_congr rfl fun e _ => ?_)
    unfold GptOssExperts.contribution
    refine congrArg (· * _) (Experts.masked_output_congr _ _ fun j hj => ?_)
    refine (view_get [b, s, j] hhidden (by simp [hb, hs, hj]) ?_).symm
    simp only [ravel_cons, ravel_nil, List.prod_cons, List.prod_nil]
    ring

end Paths

-- What a block returns is returned.
def Preserves (x y : Except ModuleError (BlockOutput R)) : Prop :=
  ∀ out, y = .ok out → ∃ out', x = .ok out' ∧ Same out'.1 out.1 ∧ Option.Rel Same out'.2 out.2

namespace MoEBlock

def hidden_size : MoEBlock R → Nat
  | deepseek (H := H) _ => H
  | stacked (H := H) _ => H

def Documented : MoEBlock R → Prop
  | deepseek _ => True
  | stacked mlp => mlp.router.Documented

-- The inputs on which the replacement of a block computes the block.
def Adapted (dispatch_devices : Nat) (device : DeviceType) (hidden_states : Tensor R) (B S : Nat) :
    MoEBlock R → Prop
  | deepseek _ => False
  | stacked (H := H) mlp => S ≠ 0 ∧ (device = .xla →
      (A2aSparseMLP.split_seq S ∨ A2aSparseMLP.split_bd (B * dispatch_devices)) ∧
        ∀ router_logits router_scores router_indices, mlp.router.forward hidden_states =
          .ok (.triple router_logits router_scores router_indices) →
            ∀ b s h, b < B → s < S → h < H → lost mlp.experts.experts mlp.experts.act
              hidden_states router_scores router_indices B S dispatch_devices mlp.router.top_k
                b s h = 0)

end MoEBlock

section Replaced

variable {mlp : GptOssMLP R E H I} {hidden_states router_logits router_scores : Tensor R}
  {router_indices : Tensor Nat} {B S : Nat}

-- The router finds the same rows in the flat tokens.
theorem GptOssMLP.Routing.router_eq
    (h : mlp.Routing hidden_states B S router_logits router_scores router_indices) (hH : 0 < H) :
    mlp.toMoEModule.router (hidden_states.view [B * S, H]) =
      .ok (.triple router_logits router_scores router_indices) := by
  refine GptOssMLP.raised_eq_ok.mpr ?_
  unfold GptOssTopKRouter.forward
  rw [GptOssExperts.view_rows (B := B) (S := S) (by simp [view_shape, Nat.mul_assoc]),
    if_neg (by omega), view_view (List.cons_ne_nil _ _)]
  exact h.route_eq

theorem stacked_replaced {mesh : Nat × Nat} {cluster_axis : Nat}
    {module : DeviceType → Tensor R → Except ModuleError (BlockOutput R)}
    (h : (MoEBlock.stacked mlp).replace_mlp mesh cluster_axis = .ok module) :
    ∃ self : A2aModule R E H I, ∃ D, [mesh.1, mesh.2][cluster_axis]? = some D ∧ 0 < D ∧
      self.toMoEModule = mlp.toMoEModule ∧
      self.mlp = ⟨mlp.experts.experts, mlp.experts.act, mlp.router.top_k, D, false, true⟩ ∧
      module = fun device hidden_states => do
        let (out, router_scores) ← self.forward device hidden_states
        return (out, some router_scores) := by
  obtain ⟨D, hD, h⟩ := bind_eq_ok.mp h
  obtain ⟨self, hself, h⟩ := bind_eq_ok.mp h
  cases h
  obtain ⟨hdevices, hmodule, hmlp⟩ := A2aModule.init_spec hself
  have hD := get_eq_ok.mp hD
  refine ⟨self, D, hD, ?_, hmodule, ?_, rfl⟩
  · obtain ⟨hfst, hsnd⟩ := mul_ne_zero_iff.mp hdevices
    have hmem := List.mem_of_getElem? hD
    simp only [List.mem_cons, List.not_mem_nil, or_false] at hmem
    obtain rfl | rfl := hmem
    · exact Nat.pos_of_ne_zero hfst
    · exact Nat.pos_of_ne_zero hsnd
  · rw [hmlp]
    have hact : { mlp.experts.act with activation_type := .gpt_oss } = mlp.experts.act := by
      rw [← mlp.activation_type]
    change (⟨mlp.experts.experts, { mlp.experts.act with activation_type := .gpt_oss },
      mlp.router.top_k, D, false, true⟩ : A2aSparseMLP R E H I) = _
    rw [hact]

variable [IsStrictOrderedRing R]

-- A call of a stacked block that returns.
theorem stacked_returned_iff {self : A2aModule R E H I} {D : Nat} (hD : 0 < D)
    (hmodule : self.toMoEModule = mlp.toMoEModule)
    (hmlp : self.mlp = ⟨mlp.experts.experts, mlp.experts.act, mlp.router.top_k, D, false, true⟩)
    (hrouter : mlp.router.Documented) (hhidden : hidden_states.shape = [B, S, H])
    {device : DeviceType} {out : Tensor R}
    (h : mlp.forward device hidden_states = .ok (out, router_scores)) :
    (∃ out' scores, self.forward device hidden_states = .ok (out', scores) ∧ Same out' out ∧
      Same scores router_scores) ↔
        (MoEBlock.stacked mlp).Adapted D device hidden_states B S := by
  obtain ⟨hB, hH, hsum, router_logits, router_indices, hrouting⟩ :=
    GptOssMLP.forward_spec hrouter hhidden h
  have hrouted : self.router (hidden_states.view [B * S, H]) =
      .ok (.triple router_logits router_scores router_indices) := by
    rw [hmodule]
    exact hrouting.router_eq hH
  have hK : self.mlp.num_experts_per_tok = mlp.router.top_k := by rw [hmlp]
  by_cases hS : S = 0
  · have hraises := A2aModule.forward_of_empty hhidden hrouted hrouting.logits_shape
      (by rw [hS, Nat.mul_zero]) device
    refine iff_of_false ?_ fun hadapted => hadapted.1 hS
    rintro ⟨out', scores, hout', -⟩
    rw [hraises] at hout'
    cases hout'
  have hpos : 0 < B * S := Nat.mul_pos hB (Nat.pos_of_ne_zero hS)
  have hforward := A2aModule.forward_of_routed hhidden hrouted hrouting.logits_shape
    (by rw [hK]; exact hrouting.routed.indices_shape) hpos device
  rw [hK] at hforward
  cases device with
  | cpu =>
      obtain ⟨out', hout', hsum'⟩ := cpu_outputs_spec (by rw [hmodule]; rfl) hK hhidden
        hrouting.routed (router_logits.view [B, S, E]) hpos hH
      refine iff_of_true ⟨out', router_scores, ?_, hsum'.same mlp.experts hsum, rfl, fun _ _ => rfl⟩
        ⟨hS, fun hxla => nomatch hxla⟩
      rw [hforward, hout']
      rfl
  | xla =>
      by_cases hsplit : A2aSparseMLP.split_seq S ∨ A2aSparseMLP.split_bd (B * D)
      · obtain ⟨out', hout', hshape, hget⟩ := xla_outputs_spec hmlp hD hhidden hrouting.routed
          (router_logits.view [B, S, E]) hsplit
        have hreturned : self.forward .xla hidden_states = .ok (out', router_scores) := by
          rw [hforward, hout']
          rfl
        constructor
        · rintro ⟨_, _, hreturned', hsame, -⟩
          cases hreturned.symm.trans hreturned'
          refine ⟨hS, fun _ => ⟨hsplit, fun logits scores indices hroute b s h hb hs hh => ?_⟩⟩
          cases hrouting.forward_eq.symm.trans hroute
          have hplace : InBounds [b, s, h] out'.shape := by
            rw [hshape]
            simp [hb, hs, hh]
          have hlost := hget b s h hb hs hh
          rw [hsame.2 _ hplace, hsum.2 b s h hb hs hh] at hlost
          exact left_eq_add.mp hlost.symm
        · rintro ⟨-, hadapted⟩
          have hlost := (hadapted rfl).2 _ _ _ hrouting.forward_eq
          refine ⟨out', router_scores, hreturned, ?_, rfl, fun _ _ => rfl⟩
          have hsum' : mlp.experts.IsWeightedSum (hidden_states.view [B * S, H]) router_scores B S
              out' := by
            refine ⟨hshape, fun b s h hb hs hh => ?_⟩
            rw [← hget b s h hb hs hh, hlost b s h hb hs hh, add_zero]
          exact hsum'.same mlp.experts hsum
      · refine iff_of_false ?_ fun hadapted => hsplit (hadapted.2 rfl).1
        have hD' : self.mlp.dispatch_devices = D := by rw [hmlp]
        have hnone := forward_of_not_split self.mlp hhidden (by omega) (by rwa [hD'])
        rintro ⟨out', scores, hout', -⟩
        rw [hforward] at hout'
        unfold A2aModule.experts_outputs at hout'
        dsimp only at hout'
        rw [hnone] at hout'
        cases hout'

end Replaced

section Examples

-- One expert, which is the first of any row.
def first_router : GptOssTopKRouter ℚ 1 1 where
  weight := ones [1, 1]
  bias := zeros [1]
  top_k := 1
  topk := fun t k => if k ≤ last t.shape then
      .ok (⟨[t.shape.headD 0, k], t.get⟩, ⟨[t.shape.headD 0, k], fun is => is.getD 1 0⟩)
    else .error .invalid_shape
  softmax := fun t => t.map fun _ => 1
  weight_shape := rfl
  bias_shape := rfl

def unit_mlp : GptOssMLP ℚ 1 1 1 where
  router := first_router
  experts := ⟨A2aSparseMLP.unitExperts ℚ 1, ⟨.gpt_oss, id, id, 1, 7⟩⟩
  activation_type := rfl

theorem first_router_documented : first_router.Documented := by
  intro t T E k values indices hshape h
  unfold first_router at h
  dsimp only at h
  split at h
  · rename_i hk
    cases h
    rw [hshape] at hk ⊢
    have hk : k ≤ E := hk
    refine ⟨rfl, fun row _ i hi => ?_, fun row _ i _ j _ heq => heq⟩
    exact Nat.lt_of_lt_of_le hi hk
  · cases h

-- One expert that squares, and a gate that selects it with weight one.
def square_moe : DeepseekV3MoE ℚ 1 1 where
  gate := fun x => .ok (zeros [x.shape.headD 0, 1], ones [x.shape.headD 0, 1])
  n_routed_experts := 1
  num_experts_per_tok := 1
  experts := [some ⟨ones [1, 1], ones [1, 1], ones [1, 1], rfl, rfl, rfl⟩]
  act := A2aSparseMLP.productAct ℚ
  shared_experts := none
  forward := fun _ x => .ok (x.map fun a => a * a)

end Examples

end TTXla.TTTorch

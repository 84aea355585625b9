import TTXla.TTTorch.SparseMLP.Groups
import Mathlib.Algebra.Order.BigOperators.Group.Finset

-- The three paths of `A2aSparseMLP.forward`.
namespace TTXla.TTTorch

open Tensor

variable {R : Type} [CommRing R] [LinearOrder R] {E H I : Nat}

theorem Experts.masked_output_congr (experts : Experts R E H I) (act : Activation R) {μ : R}
    {e h : Nat} {x y : Nat → R} (hxy : ∀ j < H, x j = y j) :
    experts.masked_output act μ e x h = experts.masked_output act μ e y h := by
  have hgate : ∀ n, experts.gate_up μ e x n = experts.gate_up μ e y n := by
    intro n
    rw [gate_up, gate_up]
    congr 2
    apply Finset.sum_congr rfl
    intro j hj
    rw [hxy j (Finset.mem_range.mp hj)]
  rw [masked_output, masked_output]
  simp only [hgate]

namespace A2aSparseMLP

variable (self : A2aSparseMLP R E H I)

-- The shapes that `forward` accepts.
def Accepts (B S : Nat) : Prop :=
  0 < self.dispatch_devices ∧ (split_seq S ∨ split_bd (B * self.dispatch_devices))

-- The experts of a token of the repeated batch.
def selected (top : Tensor Nat) (B S b s k : Nat) : Nat := top.get [b % B * S + s, k]

-- The mask of a group for an expert.
def mask (top : Tensor Nat) (B S a b e : Nat) : R :=
  let BD := B * self.dispatch_devices
  let K := self.num_experts_per_tok
  if self.use_dense_matmul then 1
  else if self.use_fused_remap then
    if ∃ b' < BD, ∃ s < S, ∃ k < K, (b' * S + s) / M = a * (dims BD S).2 + b ∧
      selected top B S b' s k = e then 1 else 0
  else
    if ∃ m < M, ∃ k < K,
      selected top B S (token_at S a b m).1 (token_at S a b m).2 k = e then 1 else 0

-- The mask for the group of a token.
def token_mask (top : Tensor Nat) (B S b s e : Nat) : R :=
  self.mask top B S (place_of S b s).1 (place_of S b s).2.1 e

section Forward

variable [IsStrictOrderedRing R] {hidden_states router_logits router_scores : Tensor R} {B S : Nat}
  (top : TopK (B * S) E self.num_experts_per_tok)

-- Every path masks the outputs of the experts.
theorem expert_outputs_spec {hidden_4d : Tensor R} {metadata : Tensor Nat}
    (hlogits : router_logits.shape = [B, S, E])
    (hmeta : metadata.shape = [1, B * self.dispatch_devices, S, self.num_experts_per_tok])
    (hget : ∀ b < B * self.dispatch_devices, ∀ s < S, ∀ k < self.num_experts_per_tok,
      metadata.get [0, b, s, k] = selected top.indices B S b s k)
    (hacc : self.Accepts B S)
    (hshape : hidden_4d.shape = [(dims (B * self.dispatch_devices) S).1,
      (dims (B * self.dispatch_devices) S).2, M, H]) :
    let BD := B * self.dispatch_devices
    ∃ out, self.expert_outputs hidden_4d router_logits metadata BD S H = some out ∧
      out.shape = [(dims BD S).1, (dims BD S).2, M, E, H] ∧
      ∀ a b m e h, a < (dims BD S).1 → b < (dims BD S).2 → m < M → e < E → h < H →
        out.get [a, b, m, e, h] = self.experts.masked_output self.act
          (self.mask top.indices B S a b e) e (fun j => hidden_4d.get [a, b, m, j]) h := by
  intro BD
  unfold expert_outputs mask
  cases hdense : self.use_dense_matmul with
  | true =>
      simp only [if_true]
      exact ⟨_, rfl, self.biased_down_shape, fun a b m e h ha hb hm he hh =>
        self.dense_outputs_get hshape ha hb hm he hh⟩
  | false =>
      cases hfused : self.use_fused_remap with
      | true =>
          simp only [Bool.false_eq_true, if_false, if_true]
          obtain ⟨sparsity, hsparsity, hs, hsget⟩ := self.fused_sparsity_spec hlogits hmeta hacc.2
          obtain ⟨out, hout, houtshape, houtget⟩ := self.sparse_outputs_spec hshape hs
          refine ⟨out, ?_, houtshape, fun a b m e h ha hb hm he hh => ?_⟩
          · rw [hsparsity]
            exact hout
          · rw [houtget a b m e h ha hb hm he hh, hsget a b e ha hb he]
            congr 1
            apply if_congr _ rfl rfl
            constructor
            · intro hex
              obtain ⟨b', hb', s, hs', k, hk, hc, he'⟩ := hex
              exact ⟨b', hb', s, hs', k, hk, hc, (hget b' hb' s hs' k hk).symm.trans he'⟩
            · intro hex
              obtain ⟨b', hb', s, hs', k, hk, hc, he'⟩ := hex
              exact ⟨b', hb', s, hs', k, hk, hc, (hget b' hb' s hs' k hk).trans he'⟩
      | false =>
          simp only [Bool.false_eq_true, if_false]
          obtain ⟨hs, hsget⟩ := self.manual_sparsity_spec hmeta hacc.2
          obtain ⟨out, hout, houtshape, houtget⟩ := self.sparse_outputs_spec hshape hs
          refine ⟨out, hout, houtshape, fun a b m e h ha hb hm he hh => ?_⟩
          rw [houtget a b m e h ha hb hm he hh, hsget a b e ha hb he]
          congr 1
          apply if_congr _ rfl rfl
          apply exists_congr
          intro m'
          apply and_congr_right
          intro hm'
          obtain ⟨hb', hs'⟩ := token_at_lt ha hb hm'
          apply exists_congr
          intro k
          apply and_congr_right
          intro hk
          rw [hget _ hb' _ hs' k hk]

-- The weight of the expert in slot `k` of a token.
omit [LinearOrder R] [IsStrictOrderedRing R] in
theorem topk_weights_get {b s k : Nat} (hb : b < B)
    (hs : s < S) (hk : k < self.num_experts_per_tok) :
    (gather_weights (E := E) router_scores (oneHot ((top.indices.view
      [B, S, self.num_experts_per_tok]).view [B * S, self.num_experts_per_tok]) E) (B * S)
      self.num_experts_per_tok).get [b * S + s, k] =
    router_scores.get [b * S + s, top.indices.get [b * S + s, k]] := by
  have ht : b * S + s < B * S := group_lt hb hs
  have hindex : ((top.indices.view [B, S, self.num_experts_per_tok]).view
      [B * S, self.num_experts_per_tok]).get [b * S + s, k] = top.indices.get [b * S + s, k] := by
    refine (view_get [b, s, k] (view_shape _ _) ?_ ?_).trans
      (view_get [b * S + s, k] top.indices_shape ?_ ?_)
    · simp [hb, hs, hk]
    · simp only [ravel_cons, ravel_nil, List.prod_cons, List.prod_nil]
      ring
    · simp [ht, hk]
    · simp only [ravel_cons, ravel_nil, List.prod_cons, List.prod_nil]
      ring
  unfold gather_weights oneHot
  change ∑ e ∈ Finset.range E, router_scores.get [b * S + s, e] *
    (if ((top.indices.view [B, S, self.num_experts_per_tok]).view
      [B * S, self.num_experts_per_tok]).get [b * S + s, k] = e then 1 else 0) = _
  rw [hindex]
  simp only [mul_ite, mul_one, mul_zero]
  rw [Finset.sum_ite_eq, if_pos (Finset.mem_range.mpr (top.lt _ ht k hk))]

-- Where the slots of a token are: a single position has the batch in the last but one
-- dimension.
def slot (S k b s h : Nat) : List Nat := if S = 1 then [k, s, b, h] else [k, b, s, h]

-- The combined outputs are those of the experts that the token selects.
omit [LinearOrder R] [IsStrictOrderedRing R] in
theorem combine_spec {down_out : Tensor R} {metadata : Tensor Nat}
    (hshape : down_out.shape = [(dims (B * self.dispatch_devices) S).1,
      (dims (B * self.dispatch_devices) S).2, M, E, H])
    (hget : ∀ b < B, ∀ s < S, ∀ k < self.num_experts_per_tok,
      metadata.get [0, b, s, k] = top.indices.get [b * S + s, k])
    (hacc : self.Accepts B S) :
    let BD := B * self.dispatch_devices
    ∃ combined, all_to_all_combine (ungroup (E := E) down_out BD S (dims BD S).2 H) metadata
        self.dispatch_devices self.num_experts_per_tok
        (if (dims BD S).2 = 1 ∧ ¬split_seq S then 2 else 1) = some combined ∧
      combined.shape = slot S self.num_experts_per_tok B S H ∧
      ∀ k b s h, k < self.num_experts_per_tok → b < B → s < S → h < H →
        combined.get (slot S k b s h) = down_out.get [(place_of S b s).1, (place_of S b s).2.1,
          (place_of S b s).2.2, top.indices.get [b * S + s, k], h] := by
  intro BD
  have hBD : BD / self.dispatch_devices = B := Nat.mul_div_cancel _ hacc.1
  have hle : B ≤ BD := Nat.le_mul_of_pos_right B hacc.1
  have hlt : ∀ b < B, ∀ s < S, ∀ k < self.num_experts_per_tok,
      metadata.get [0, b, s, k] < E := by
    intro b hb s hs k hk
    rw [hget b hb s hs k hk]
    exact top.lt _ (group_lt hb hs) k hk
  unfold slot
  rcases ungroup_spec hshape hacc.2 with ⟨hmode, hone, hout, hog⟩ | ⟨hmode, rfl, hout, hog⟩
  · obtain ⟨combined, hc, hcshape, hcget⟩ :=
      all_to_all_combine_spec metadata self.num_experts_per_tok hacc.1 hout
    refine ⟨combined, ?_, ?_, fun k b s h hk hb hs hh => ?_⟩
    · rw [if_neg hmode]
      exact hc
    · rw [hcshape, hBD, if_neg hone]
    · rw [if_neg hone, hcget k b s h (hlt b hb s hs k hk), hget b hb s hs k hk]
      exact hog _ b s h (top.lt _ (group_lt hb hs) k hk) (by omega) hs hh
  · obtain ⟨combined, hc, hcshape, hcget⟩ :=
      all_to_all_combine_decode_spec metadata self.num_experts_per_tok hacc.1 hout
    refine ⟨combined, ?_, ?_, fun k b s h hk hb hs hh => ?_⟩
    · rw [if_pos hmode]
      exact hc
    · rw [hcshape, hBD, if_pos rfl]
    · obtain rfl : s = 0 := by omega
      rw [if_pos rfl, hcget k 0 b h (hlt b hb 0 hs k hk), hget b hb 0 hs k hk]
      exact hog _ b h (top.lt _ (group_lt hb hs) k hk) (by omega) hh

-- The sum over the slots.
omit [LinearOrder R] [IsStrictOrderedRing R] in
theorem weighted_sum_spec {combined : Tensor R} (topk_weights : Tensor R)
    (hcombined : combined.shape = slot S self.num_experts_per_tok B S H)
    (hshape : topk_weights.shape = [B * S, self.num_experts_per_tok]) :
    (self.weighted_sum combined topk_weights B S).shape = [B, S, H] ∧
      ∀ b s h, b < B → s < S → h < H →
        (self.weighted_sum combined topk_weights B S).get [b, s, h] =
          ∑ k ∈ Finset.range self.num_experts_per_tok,
            combined.get (slot S k b s h) * topk_weights.get [b * S + s, k] := by
  unfold weighted_sum slot
  unfold slot at hcombined
  by_cases hone : S = 1
  · subst hone
    simp only [if_true] at hcombined ⊢
    have hsq : (combined.squeeze 1).shape = [self.num_experts_per_tok, B, H] := by
      unfold squeeze
      rw [hcombined]
      rfl
    have hsqget : ∀ k b h, (combined.squeeze 1).get [k, b, h] = combined.get [k, 0, b, h] := by
      intro k b h
      unfold squeeze
      rw [hcombined]
      rfl
    have hmul : (combined.squeeze 1 * ((topk_weights.view [B, self.num_experts_per_tok]).permute
        [1, 0]).unsqueeze 2).shape = [self.num_experts_per_tok, B, H] := by
      change bshape (combined.squeeze 1).shape [self.num_experts_per_tok, B, 1] = _
      rw [hsq]
      change [if self.num_experts_per_tok = 1 then self.num_experts_per_tok
        else self.num_experts_per_tok, if B = 1 then B else B, if H = 1 then 1 else H] = _
      rw [ite_self, ite_self, bdim_one]
    refine ⟨?_, fun b s h hb hs hh => ?_⟩
    · rw [unsqueeze_shape, sum_shape, hmul]
      rfl
    · obtain rfl : s = 0 := by omega
      rw [unsqueeze_get, sum_get, hmul]
      apply Finset.sum_congr rfl
      intro k hk
      have hk' : k < self.num_experts_per_tok := Finset.mem_range.mp hk
      change (combined.squeeze 1).bget [k, b, h] * (topk_weights.view
        [B, self.num_experts_per_tok]).get [if B = 1 then 0 else b,
          if self.num_experts_per_tok = 1 then 0 else k] = _
      rw [bget_eq _ (by simp [hsq, hk', hb, hh]), hsqget, bcast_of_lt hb, bcast_of_lt hk']
      congr 1
      apply view_get _ hshape
      · simp [hb, hk']
      · simp only [ravel_cons, ravel_nil, List.prod_cons, List.prod_nil]
        ring
  · simp only [if_neg hone] at hcombined ⊢
    have hmul : (combined * ((topk_weights.view [B, S, self.num_experts_per_tok]).permute
        [2, 0, 1]).unsqueeze 3).shape = [self.num_experts_per_tok, B, S, H] := by
      change bshape combined.shape [self.num_experts_per_tok, B, S, 1] = _
      rw [hcombined]
      change [if self.num_experts_per_tok = 1 then self.num_experts_per_tok
        else self.num_experts_per_tok, if B = 1 then B else B, if S = 1 then S else S,
        if H = 1 then 1 else H] = _
      rw [ite_self, ite_self, ite_self, bdim_one]
    refine ⟨?_, fun b s h hb hs hh => ?_⟩
    · rw [sum_shape, hmul]
      rfl
    · rw [sum_get, hmul]
      apply Finset.sum_congr rfl
      intro k hk
      have hk' : k < self.num_experts_per_tok := Finset.mem_range.mp hk
      change combined.bget [k, b, s, h] * (topk_weights.view
        [B, S, self.num_experts_per_tok]).get [if B = 1 then 0 else b, if S = 1 then 0 else s,
          if self.num_experts_per_tok = 1 then 0 else k] = _
      rw [bget_eq _ (by simp [hcombined, hk', hb, hs, hh]), bcast_of_lt hb, bcast_of_lt hs,
        bcast_of_lt hk']
      congr 1
      apply view_get _ hshape
      · simp [group_lt hb hs, hk']
      · simp only [ravel_cons, ravel_nil, List.prod_cons, List.prod_nil]
        ring

-- Each token gets the masked outputs of its experts, with their weights.
variable (router_logits router_scores) in
theorem forward_spec (hhidden : hidden_states.shape = [B, S, H])
    (hacc : self.Accepts B S) :
    ∃ out, self.forward hidden_states router_logits router_scores top.indices = some out ∧
      out.shape = [B, S, H] ∧ ∀ b s h, b < B → s < S → h < H → out.get [b, s, h] =
        ∑ k ∈ Finset.range self.num_experts_per_tok,
          self.experts.masked_output self.act
            (self.token_mask top.indices B S b s (top.indices.get [b * S + s, k]))
            (top.indices.get [b * S + s, k]) (fun j => hidden_states.get [b, s, j]) h *
          router_scores.get [b * S + s, top.indices.get [b * S + s, k]] := by
  obtain ⟨dispatched, metadata, hdispatch, hdshape, hmshape, hdget, hmget⟩ :=
    all_to_all_dispatch_spec (view_shape hidden_states [B, 1, S, H])
      (view_shape (top.indices.view [B, S, self.num_experts_per_tok])
        [B, 1, S, self.num_experts_per_tok]) hacc.1
  have hmeta : ∀ b < B * self.dispatch_devices, ∀ s < S, ∀ k < self.num_experts_per_tok,
      metadata.get [0, b, s, k] = selected top.indices B S b s k := by
    intro b hb s hs k hk
    have hB : 0 < B := Nat.pos_of_mul_pos_right (Nat.zero_lt_of_lt hb)
    have hb' := Nat.mod_lt b hB
    rw [hmget b hb s hs k hk]
    refine (view_get [b % B, s, k] (view_shape _ _) ?_ ?_).trans
      (view_get [b % B * S + s, k] top.indices_shape ?_ ?_)
    · simp [hb', hs, hk]
    · simp only [ravel_cons, ravel_nil, List.prod_cons, List.prod_nil]
      ring
    · simp [group_lt hb' hs, hk]
    · simp only [ravel_cons, ravel_nil, List.prod_cons, List.prod_nil]
      ring
  have hle : B ≤ B * self.dispatch_devices := Nat.le_mul_of_pos_right B hacc.1
  have hdtoken : ∀ b < B, ∀ s < S, ∀ j < H,
      dispatched.get [0, b, s, j] = hidden_states.get [b, s, j] := by
    intro b hb s hs j hj
    rw [hdget b (by omega) s hs j hj, Nat.mod_eq_of_lt hb]
    apply view_get _ hhidden
    · simp [hb, hs, hj]
    · simp only [ravel_cons, ravel_nil, List.prod_cons, List.prod_nil]
      ring
  have hmtoken : ∀ b < B, ∀ s < S, ∀ k < self.num_experts_per_tok,
      metadata.get [0, b, s, k] = top.indices.get [b * S + s, k] := by
    intro b hb s hs k hk
    rw [hmeta b (by omega) s hs k hk, selected, Nat.mod_eq_of_lt hb]
  obtain ⟨hgshape, hgget⟩ := group_tokens_spec hdshape hacc.2
  obtain ⟨down_out, hdown, hdownshape, hdownget⟩ := self.expert_outputs_spec top
    (view_shape router_logits [B, S, E]) hmshape hmeta hacc hgshape
  obtain ⟨combined, hc, hcshape, hcget⟩ := self.combine_spec top hdownshape hmtoken hacc
  have hguard : guard (split_seq S ∨ split_bd (B * self.dispatch_devices)) =
      (some () : Option Unit) := if_pos hacc.2
  unfold forward
  rw [hhidden]
  dsimp only
  rw [hdispatch]
  dsimp only
  rw [hdshape]
  simp only [List.getD_cons_succ, List.getD_cons_zero]
  rw [hguard, hdown]
  simp only [Option.bind_eq_bind, Option.bind_some]
  rw [hc]
  obtain ⟨hshape, hsum⟩ := self.weighted_sum_spec (gather_weights (E := E) router_scores
    (oneHot ((top.indices.view [B, S, self.num_experts_per_tok]).view
      [B * S, self.num_experts_per_tok]) E) (B * S) self.num_experts_per_tok) hcshape rfl
  refine ⟨_, rfl, hshape, fun b s h hb hs hh => ?_⟩
  rw [hsum b s h hb hs hh]
  apply Finset.sum_congr rfl
  intro k hk
  have hk' : k < self.num_experts_per_tok := Finset.mem_range.mp hk
  obtain ⟨ha, hb', hm, htoken⟩ := place_of_spec hacc.2 (show b < _ by omega) hs
  have he := top.lt _ (group_lt hb hs) k hk'
  rw [self.topk_weights_get top hb hs hk', hcget k b s h hk' hb hs hh,
    hdownget _ _ _ _ h ha hb' hm he hh]
  congr 1
  apply self.experts.masked_output_congr
  intro j hj
  rw [hgget _ _ _ j ha hb' hm hj, htoken]
  exact hdtoken b hb s hs j hj

end Forward

-- The experts of a token.
def experts_of (top : Tensor Nat) (K t : Nat) : Finset Nat :=
  (Finset.range K).image fun k => top.get [t, k]

-- The output of the layer: the experts of each token, with their weights.
def IsMoE (experts : Experts R E H I) (act : Activation R) (K : Nat) (top : Tensor Nat)
    (router_scores hidden_states : Tensor R) (B S : Nat) (out : Tensor R) : Prop :=
  out.shape = [B, S, H] ∧ ∀ b s h, b < B → s < S → h < H → out.get [b, s, h] =
    ∑ e ∈ experts_of top K (b * S + s), router_scores.get [b * S + s, e] *
      experts.output act e (fun j => hidden_states.get [b, s, j]) h

-- Each of the three paths computes it.
def PathsCompute (hidden_states router_logits router_scores : Tensor R) (top : Tensor Nat)
    (B S : Nat) : Prop :=
  ∀ use_dense_matmul use_fused_remap : Bool, ∃ out,
    ({ self with
      use_dense_matmul := use_dense_matmul
      use_fused_remap := use_fused_remap } : A2aSparseMLP R E H I).forward hidden_states
        router_logits router_scores top = some out ∧
    IsMoE self.experts self.act self.num_experts_per_tok top router_scores hidden_states B S out

-- Each expert of a token is selected by one of the consecutive tokens that the fused mask
-- reduces to the place of the token's group.
def Covered (top : Tensor Nat) (B S D K : Nat) : Prop :=
  ∀ b < B, ∀ s < S, ∀ k < K, ∃ b' < B * D, ∃ s' < S, ∃ k' < K,
    (b' * S + s') / M = (place_of S b s).1 * (dims (B * D) S).2 + (place_of S b s).2.1 ∧
    selected top B S b' s' k' = top.get [b * S + s, k]

section Paths

variable {B S K D : Nat}

-- With the masks set, the outputs are those of the experts.
theorem isMoE_of_masks (top : TopK (B * S) E self.num_experts_per_tok)
    {router_scores hidden_states out : Tensor R} (hshape : out.shape = [B, S, H])
    (hget : ∀ b s h, b < B → s < S → h < H → out.get [b, s, h] =
      ∑ k ∈ Finset.range self.num_experts_per_tok,
        self.experts.masked_output self.act
          (self.token_mask top.indices B S b s (top.indices.get [b * S + s, k]))
          (top.indices.get [b * S + s, k]) (fun j => hidden_states.get [b, s, j]) h *
        router_scores.get [b * S + s, top.indices.get [b * S + s, k]])
    (hmask : ∀ b < B, ∀ s < S, ∀ k < self.num_experts_per_tok,
      self.token_mask top.indices B S b s (top.indices.get [b * S + s, k]) = 1) :
    IsMoE self.experts self.act self.num_experts_per_tok top.indices router_scores
      hidden_states B S out := by
  refine ⟨hshape, fun b s h hb hs hh => ?_⟩
  have hinj : Set.InjOn (fun k => top.indices.get [b * S + s, k])
      (Finset.range self.num_experts_per_tok) := by
    intro k hk k' hk' he
    exact top.distinct _ (group_lt hb hs) k (Finset.mem_range.mp hk) k' (Finset.mem_range.mp hk') he
  rw [hget b s h hb hs hh, experts_of, Finset.sum_image hinj]
  apply Finset.sum_congr rfl
  intro k hk
  rw [hmask b hb s hs k (Finset.mem_range.mp hk), mul_comm]
  rfl

omit [LinearOrder R] in
theorem token_mask_dense (hdense : self.use_dense_matmul = true) (top : Tensor Nat)
    (b s e : Nat) : self.token_mask top B S b s e = 1 := by
  rw [token_mask, mask, if_pos hdense]

-- A token is in its own group.
omit [LinearOrder R] in
theorem token_mask_manual (hdense : self.use_dense_matmul = false)
    (hfused : self.use_fused_remap = false) (hacc : self.Accepts B S) (top : Tensor Nat)
    {b s k : Nat} (hb : b < B) (hs : s < S) (hk : k < self.num_experts_per_tok) :
    self.token_mask top B S b s (top.get [b * S + s, k]) = 1 := by
  have hle : B ≤ B * self.dispatch_devices := Nat.le_mul_of_pos_right B hacc.1
  obtain ⟨-, -, hm, htoken⟩ := place_of_spec hacc.2 (show b < _ by omega) hs
  rw [token_mask, mask, hdense, hfused]
  simp only [Bool.false_eq_true, if_false]
  rw [if_pos]
  refine ⟨_, hm, k, hk, ?_⟩
  rw [htoken, selected, Nat.mod_eq_of_lt hb]

omit [LinearOrder R] in
theorem token_mask_fused (hdense : self.use_dense_matmul = false)
    (hfused : self.use_fused_remap = true) (top : Tensor Nat) (b s e : Nat) :
    self.token_mask top B S b s e =
      if ∃ b' < B * self.dispatch_devices, ∃ s' < S, ∃ k < self.num_experts_per_tok,
        (b' * S + s') / M = (place_of S b s).1 * (dims (B * self.dispatch_devices) S).2 +
          (place_of S b s).2.1 ∧ selected top B S b' s' k = e
      then 1 else 0 := by
  rw [token_mask, mask, hdense, hfused]
  simp only [Bool.false_eq_true, if_false, if_true]

-- Where the groups are consecutive tokens, the fused mask covers them.
theorem covered_of_consecutive (hacc : 0 < D ∧ (split_seq S ∨ split_bd (B * D)))
    (hS : split_seq S ∨ S = 1) (top : Tensor Nat) : Covered top B S D K := by
  intro b hb s hs k hk
  have hM := M_pos
  have hle : B ≤ B * D := Nat.le_mul_of_pos_right B hacc.1
  refine ⟨b, by omega, s, hs, k, hk, ?_, by rw [selected, Nat.mod_eq_of_lt hb]⟩
  unfold place_of
  rcases split_cases hacc.2 with ⟨hseq, q, rfl, hdims⟩ | ⟨hseq, q, hq, hdims⟩
  · rw [hseq, hdims]
    change (b * (q * M) + s) / M = b * q + s / M
    rw [← Nat.mul_assoc, Nat.add_comm, Nat.add_mul_div_right _ _ hM, Nat.add_comm]
  · obtain rfl : S = 1 := hS.resolve_left (by simp [hseq])
    obtain rfl : s = 0 := by omega
    rw [hseq, hdims]
    change (b * 1 + 0) / M = b / M * 1 + 0
    rw [Nat.mul_one, Nat.mul_one, Nat.add_zero, Nat.add_zero]

-- One expert weight of each kind, and tokens with one element.
def unitExperts (R : Type) [CommRing R] (E : Nat) : Experts R E 1 1 where
  gate_up_proj := ones [E, 1, 2]
  gate_up_proj_bias := zeros [E, 2]
  down_proj := ones [E, 1, 1]
  down_proj_bias := zeros [E, 1]
  gate_up_proj_shape := rfl
  gate_up_proj_bias_shape := rfl
  down_proj_shape := rfl
  down_proj_bias_shape := rfl

-- The product of the gate and the up.
def productAct (R : Type) [CommRing R] : Activation R where
  activation_type := .deepseek
  sigmoid := id
  silu := id
  alpha := 0
  limit := 0

theorem unitExperts_masked_output (μ : R) (e : Nat) :
    (unitExperts R E).masked_output (productAct R) μ e (fun _ => 1) 0 = μ * μ * μ := by
  simp [Experts.masked_output, Experts.gate_up, unitExperts, productAct, Activation.scalar, ones,
    zeros, full]

variable [IsStrictOrderedRing R]

-- The paths compute the layer for all weights and tokens exactly when the routing is covered.
theorem paths_iff_covered (hacc : 0 < D ∧ (split_seq S ∨ split_bd (B * D)))
    (top : TopK (B * S) E K) :
    (∀ (H I : Nat) (experts : Experts R E H I) (act : Activation R)
      (hidden_states router_logits router_scores : Tensor R),
      hidden_states.shape = [B, S, H] → router_logits.shape = [B * S, E] →
      router_scores.shape = [B * S, E] →
      (⟨experts, act, K, D, false, false⟩ : A2aSparseMLP R E H I).PathsCompute hidden_states
        router_logits router_scores top.indices B S) ↔
    Covered top.indices B S D K := by
  constructor
  · intro hall b hb s hs k₀ hk₀
    by_contra hnot
    obtain ⟨out, hout, -, hmoe⟩ := hall 1 1 (unitExperts R E) (productAct R) (ones [B, S, 1])
      (ones [B * S, E]) (ones [B * S, E]) rfl rfl rfl false true
    obtain ⟨out', hout', -, hget⟩ := forward_spec
      (⟨unitExperts R E, productAct R, K, D, false, true⟩ : A2aSparseMLP R E 1 1)
      (ones [B * S, E]) (ones [B * S, E]) top (show (ones [B, S, 1] : Tensor R).shape = _ from rfl)
      hacc
    obtain rfl : out = out' := Option.some.inj (hout.symm.trans hout')
    have hinj : Set.InjOn (fun k => top.indices.get [b * S + s, k]) (Finset.range K) := by
      intro k hk k' hk' he
      exact top.distinct _ (group_lt hb hs) k (Finset.mem_range.mp hk) k'
        (Finset.mem_range.mp hk') he
    have hsum := (hmoe b s 0 hb hs Nat.one_pos).symm.trans (hget b s 0 hb hs Nat.one_pos)
    rw [experts_of, Finset.sum_image hinj] at hsum
    -- every slot adds one to the layer, and the one that is not covered adds nothing to the sum
    have hlt : ∑ k ∈ Finset.range K, (unitExperts R E).masked_output (productAct R)
        (token_mask ⟨unitExperts R E, productAct R, K, D, false, true⟩ top.indices B S b s
          (top.indices.get [b * S + s, k])) (top.indices.get [b * S + s, k]) (fun _ => 1) 0 * 1 <
        ∑ k ∈ Finset.range K, 1 * (unitExperts R E).output (productAct R)
          (top.indices.get [b * S + s, k]) (fun _ => 1) 0 := by
      have hone : ∀ k, 1 * (unitExperts R E).output (productAct R)
          (top.indices.get [b * S + s, k]) (fun _ => 1) 0 = 1 := by
        intro k
        rw [Experts.output, unitExperts_masked_output]
        ring
      apply Finset.sum_lt_sum
      · intro k _
        rw [hone, unitExperts_masked_output, token_mask_fused _ rfl rfl]
        split
        · simp
        · simp
      · refine ⟨k₀, Finset.mem_range.mpr hk₀, ?_⟩
        rw [hone, unitExperts_masked_output, token_mask_fused _ rfl rfl, if_neg hnot]
        simp
    exact absurd hsum hlt.ne'
  · intro hcov H I experts act hidden_states router_logits router_scores hh _ _ dense fused
    obtain ⟨out, hout, hshape, hget⟩ := forward_spec
      (⟨experts, act, K, D, dense, fused⟩ : A2aSparseMLP R E H I) router_logits router_scores top
      hh hacc
    have hmask : ∀ b < B, ∀ s < S, ∀ k < K,
        token_mask (⟨experts, act, K, D, dense, fused⟩ : A2aSparseMLP R E H I) top.indices B S b s
          (top.indices.get [b * S + s, k]) = 1 := by
      intro b hb s hs k hk
      cases dense with
      | true => exact token_mask_dense _ rfl _ _ _ _
      | false =>
          cases fused with
          | true =>
              rw [token_mask_fused _ rfl rfl]
              exact if_pos (hcov b hb s hs k hk)
          | false =>
              exact token_mask_manual (⟨experts, act, K, D, false, false⟩ : A2aSparseMLP R E H I)
                rfl rfl hacc _ hb hs hk
    refine ⟨out, hout, ?_⟩
    exact isMoE_of_masks (⟨experts, act, K, D, dense, fused⟩ : A2aSparseMLP R E H I) top hshape
      hget hmask

end Paths

section Example

-- A batch of 32 sequences of two tokens, whose first half selects expert 0 and second half
-- expert 1.
def twoHalves : TopK (32 * 2) 2 1 where
  indices := ⟨[64, 1], fun is => if is.headD 0 < 32 then 0 else 1⟩
  indices_shape := rfl
  lt := fun t _ k _ => by
    dsimp only
    split <;> omega
  distinct := fun t _ k hk k' hk' _ => by omega

def unitFused : A2aSparseMLP ℚ 2 1 1 :=
  ⟨unitExperts ℚ 2, productAct ℚ, 1, 1, false, true⟩

-- The first group has the tokens at position 0, and its mask comes from the first sixteen
-- sequences: the expert of sequence 16 is not computed.
theorem twoHalves_not_pathsCompute :
    ¬unitFused.PathsCompute (ones [32, 2, 1]) (ones [64, 2]) (ones [64, 2]) twoHalves.indices
      32 2 := by
  intro h
  obtain ⟨out, hout, -, hget⟩ := h false true
  have hzero : (unitFused.forward (ones [32, 2, 1]) (ones [64, 2]) (ones [64, 2])
      twoHalves.indices).map (fun out => out.get [16, 0, 0]) = some 0 := by
    decide +kernel
  have hone := hget 16 0 0 (by omega) (by omega) (by omega)
  rw [show unitFused.forward _ _ _ _ = _ from hout, Option.map_some, Option.some.injEq] at hzero
  rw [hzero] at hone
  exact absurd hone (by decide +kernel)

-- A batch of 32 single tokens is covered.
def decodeBatch : TopK (32 * 1) 2 1 where
  indices := ⟨[32, 1], fun is => if is.headD 0 < 16 then 0 else 1⟩
  indices_shape := rfl
  lt := fun t _ k _ => by
    dsimp only
    split <;> omega
  distinct := fun t _ k hk k' hk' _ => by omega

theorem decodeBatch_pathsCompute :
    unitFused.PathsCompute (ones [32, 1, 1]) (ones [32, 2]) (ones [32, 2]) decodeBatch.indices
      32 1 :=
  (paths_iff_covered (by decide) decodeBatch).mpr
    (covered_of_consecutive (by decide) (Or.inr rfl) _) 1 1 (unitExperts ℚ 2) (productAct ℚ)
    _ _ _ rfl rfl rfl

end Example

end A2aSparseMLP

end TTXla.TTTorch

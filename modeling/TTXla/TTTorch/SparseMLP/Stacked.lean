import TTXla.TTTorch.SparseMLP.Paths
import Mathlib.Algebra.BigOperators.Group.Finset.Sigma
import Mathlib.Algebra.BigOperators.Ring.Finset

-- `A2aSparseStackedMlp` against `SparseMLP`: the stages that they share, and their outputs.
namespace TTXla.TTTorch

open Tensor

variable {R : Type} [CommRing R] [LinearOrder R] {E H I N P Q K : Nat}

section Stages

variable {hidden_4d w bias : Tensor R}

-- The experts that the indices of a token name.
omit [LinearOrder R] in
theorem token_marks_get {index : Tensor Nat} (hindex : index.shape = [P, Q, 1, K])
    (p q e : Nat) :
    ((zeros [P, Q, 1, E] : Tensor R).scatterLast index (ones [P, Q, 1, K])).get [p, q, 0, e] =
      if ∃ k < K, index.get [p, q, 0, k] = e then 1 else 0 := by
  have hlast : last index.shape = K := by
    rw [hindex]
    rfl
  rw [scatterLast_ones, hlast]
  rfl

-- The gates and ups of single tokens.
theorem gate_up_stage (sparsity : Tensor R) (hhidden : hidden_4d.shape = [P, Q, 1, H])
    (hw : w.shape = [1, E, H, N]) (hbias : bias.shape = [E, N]) :
    ∃ g, sparse_matmul hidden_4d w sparsity false true = some g ∧
      (g.view [P, Q, E, N] + bias).shape = [P, Q, E, N] ∧
      ∀ p q e n, p < P → q < Q → e < E → n < N →
        (g.view [P, Q, E, N] + bias).get [p, q, e, n] =
          (∑ j ∈ Finset.range H, hidden_4d.get [p, q, 0, j] * w.get [0, e, j, n]) *
            sparsity.get [p, q, 0, e] + bias.get [e, n] := by
  obtain ⟨g, hg, hshape, hget⟩ := sparse_matmul_dense_sparse sparsity hhidden hw
  refine ⟨g, hg, ?_, fun p q e n hp hq he hn => ?_⟩
  · change bshape [P, Q, E, N] bias.shape = _
    rw [hbias]
    change [if P = 1 then 1 else P, if Q = 1 then 1 else Q, if E = 1 then E else E,
      if N = 1 then N else N] = _
    rw [bdim_one, bdim_one, ite_self, ite_self]
  · refine (add_get _ _ [p, q] [e, n] ?_ ?_).trans ?_
    · change InBounds [p, q, e, n] [P, Q, E, N]
      simp [hp, hq, he, hn]
    · rw [hbias]
      simp [he, hn]
    · rw [← hget p hp q hq]
      apply congrArg (· + bias.get [e, n])
      apply view_get _ hshape
      · simp [hp, hq, he, hn]
      · simp only [List.cons_append, List.nil_append, ravel_cons, ravel_nil, List.prod_cons,
          List.prod_nil]
        ring

-- The outputs of the experts for single tokens.
theorem down_stage {activated : Tensor R} (sparsity : Tensor R)
    (hactivated : activated.shape = [P, Q, E, I])
    (hs : sparsity.shape = [P, Q, 1, E]) (hw : w.shape = [1, E, I, H])
    (hbias : bias.shape = [E, H]) :
    ∃ d, sparse_matmul (activated.view [P * Q, E, 1, I]) w (sparsity.view [1, 1, P * Q, E])
        true false = some d ∧
      (d.squeeze 2 + bias).shape = [P * Q, E, H] ∧
      ∀ p q e h, p < P → q < Q → e < E → h < H →
        (d.squeeze 2 + bias).get [p * Q + q, e, h] =
          (∑ i ∈ Finset.range I, activated.get [p, q, e, i] * w.get [0, e, i, h]) *
            sparsity.get [p, q, 0, e] + bias.get [e, h] := by
  obtain ⟨d, hd, hshape, hget⟩ := sparse_matmul_sparse_dense (activated.view [P * Q, E, 1, I]) w
    (sparsity.view [1, 1, P * Q, E]) rfl hw
  have hsq : (d.squeeze 2).shape = [P * Q, E, H] := by
    unfold squeeze
    rw [hshape]
    rfl
  have hsqget : ∀ t e h, (d.squeeze 2).get [t, e, h] = d.get [t, e, 0, h] := by
    intro t e h
    unfold squeeze
    rw [hshape]
    rfl
  refine ⟨d, hd, ?_, fun p q e h hp hq he hh => ?_⟩
  · change bshape (d.squeeze 2).shape bias.shape = _
    rw [hsq, hbias]
    change [if P * Q = 1 then 1 else P * Q, if E = 1 then E else E, if H = 1 then H else H] = _
    rw [bdim_one, ite_self, ite_self]
  · have ht : p * Q + q < P * Q := group_lt hp hq
    refine (add_get _ _ [p * Q + q] [e, h] ?_ ?_).trans ?_
    · rw [hsq]
      simp [ht, he, hh]
    · rw [hbias]
      simp [he, hh]
    · change (d.squeeze 2).get [p * Q + q, e, h] + bias.get [e, h] = _
      rw [hsqget, hget _ ht]
      apply congrArg (· + bias.get [e, h])
      apply congrArg₂ (· * ·)
      · apply Finset.sum_congr rfl
        intro i hi
        have hi' : i < I := Finset.mem_range.mp hi
        apply congrArg (· * w.get [0, e, i, h])
        apply view_get _ hactivated
        · simp [hp, hq, he, hi']
        · simp only [ravel_cons, ravel_nil, List.prod_cons, List.prod_nil]
          ring
      · apply view_get _ hs
        · simp [hp, hq, he]
        · simp only [ravel_cons, ravel_nil, List.prod_cons, List.prod_nil]
          ring

end Stages

-- Two views read the same element at the same position.
theorem view_congr {α : Type} (t : Tensor α) {shape is shape' is' : List Nat}
    (h : ravel shape is = ravel shape' is') : (t.view shape).get is = (t.view shape').get is' := by
  unfold view
  dsimp only
  rw [h]

-- The weighted outputs of the experts of each token.
def IsTopKMoE (experts : Experts R E H I) (act : Activation R) (K : Nat) (top : Tensor Nat)
    (router_scores hidden_states : Tensor R) (B S : Nat) (out : Tensor R) : Prop :=
  out.shape = [B, S, H] ∧ ∀ b s h, b < B → s < S → h < H → out.get [b, s, h] =
    ∑ k ∈ Finset.range K, experts.output act (top.get [b * S + s, k])
      (fun j => hidden_states.get [b, s, j]) h * router_scores.get [b, s, k]

-- The scattered weights leave the experts that a token names.
omit [LinearOrder R] in
theorem scattered_sum {outputs : Tensor R} {index : Tensor Nat} {T K : Nat}
    (houtputs : outputs.shape = [T, E, H]) (hindex : index.shape = [T, K]) (src : Tensor R) :
    let weighted := (outputs *
      ((zeros [T, E] : Tensor R).scatterLast index src).unsqueeze 2).sum 1
    weighted.shape = [T, H] ∧ ∀ t h, t < T → h < H → (∀ k < K, index.get [t, k] < E) →
      (∀ k < K, ∀ k' < K, index.get [t, k] = index.get [t, k'] → k = k') →
      weighted.get [t, h] =
        ∑ k ∈ Finset.range K, outputs.get [t, index.get [t, k], h] * src.get [t, k] := by
  intro weighted
  have hmul : (outputs * ((zeros [T, E] : Tensor R).scatterLast index src).unsqueeze 2).shape =
      [T, E, H] := by
    change bshape outputs.shape [T, E, 1] = _
    rw [houtputs]
    change [if T = 1 then T else T, if E = 1 then E else E, if H = 1 then 1 else H] = _
    rw [ite_self, ite_self, bdim_one]
  have hlast : last index.shape = K := by
    rw [hindex]
    rfl
  refine ⟨?_, fun t h ht hh hlt hdistinct => ?_⟩
  · rw [sum_shape, hmul]
    rfl
  · have hscattered : ∀ e, ((zeros [T, E] : Tensor R).scatterLast index src).get [t, e] =
        ∑ k ∈ Finset.range K, if index.get [t, k] = e then src.get [t, k] else 0 := by
      intro e
      rw [scatterLast_zeros]
      · rw [hlast]
        rfl
      · rw [hlast]
        exact hdistinct
    have hterm : ∀ e < E, (outputs * ((zeros [T, E] : Tensor R).scatterLast index
        src).unsqueeze 2).get [t, e, h] = ∑ k ∈ Finset.range K,
          if index.get [t, k] = e then outputs.get [t, e, h] * src.get [t, k] else 0 := by
      intro e he
      change outputs.bget [t, e, h] * ((zeros [T, E] : Tensor R).scatterLast index src).get
        [if T = 1 then 0 else t, if E = 1 then 0 else e] = _
      rw [bget_eq _ (by simp [houtputs, ht, he, hh]), bcast_of_lt ht, bcast_of_lt he, hscattered,
        Finset.mul_sum]
      simp only [mul_ite, mul_zero]
    calc weighted.get [t, h]
        = ∑ e ∈ Finset.range E, ∑ k ∈ Finset.range K,
            if index.get [t, k] = e then outputs.get [t, e, h] * src.get [t, k] else 0 := by
          rw [sum_get, hmul]
          apply Finset.sum_congr rfl
          intro e he
          exact hterm e (Finset.mem_range.mp he)
      _ = ∑ k ∈ Finset.range K, outputs.get [t, index.get [t, k], h] * src.get [t, k] := by
          rw [Finset.sum_comm]
          apply Finset.sum_congr rfl
          intro k hk
          rw [Finset.sum_ite_eq, if_pos (Finset.mem_range.mpr (hlt k (Finset.mem_range.mp hk)))]

section SparseMLP

variable (self : SparseMLP R E H I) {B S : Nat}
  {hidden_states : Tensor R} (router_scores : Tensor R) {router_indices : Tensor Nat}
  (top : TopK (B * S) E self.num_experts_per_tok)

theorem SparseMLP.activated_spec {gate_up_out : Tensor R} {P Q : Nat}
    (hshape : gate_up_out.shape = [P, Q, E, I * 2]) :
    (self.activated gate_up_out).shape = [P, Q, E, I] ∧
      ∀ p q e i, p < P → q < Q → e < E → i < I →
        (self.activated gate_up_out).get [p, q, e, i] =
          self.act.scalar (gate_up_out.get [p, q, e, 2 * i])
            (gate_up_out.get [p, q, e, 1 + 2 * i]) := by
  have hslice : ∀ start, (gate_up_out.slice start 2 I).shape = [P, Q, E, I] := by
    intro start
    unfold slice
    rw [hshape]
    rfl
  unfold activated
  refine ⟨self.act.apply_shape (hslice 0) (hslice 1), fun p q e i hp hq he hi => ?_⟩
  rw [self.act.apply_get (hslice 0) (hslice 1) (by simp [hp, hq, he, hi])]
  change self.act.scalar (gate_up_out.get [p, q, e, 0 + 2 * i]) _ = _
  rw [Nat.zero_add]
  rfl

-- Each token gets the outputs of its experts.
theorem SparseMLP.forward_spec (hhidden : hidden_states.shape = [B, S, H])
    (htop : top.indices = router_indices.view [B * S, self.num_experts_per_tok]) :
    ∃ out, self.forward hidden_states router_scores router_indices = some out ∧
      IsTopKMoE self.experts self.act self.num_experts_per_tok top.indices
        (router_scores.view [B, S, self.num_experts_per_tok]) hidden_states B S out := by
  have hw : (self.experts.gate_up_proj.unsqueeze 0).shape = [1, E, H, I * 2] := by
    rw [unsqueeze_shape, self.experts.gate_up_proj_shape]
    rfl
  have hindex : (router_indices.view [B, S, 1, self.num_experts_per_tok]).shape = [B, S, 1, self.num_experts_per_tok] := rfl
  obtain ⟨g, hg, hgshape, hgget⟩ := gate_up_stage ((zeros [B, S, 1, E] : Tensor R).scatterLast
    (router_indices.view [B, S, 1, self.num_experts_per_tok]) (ones [B, S, 1, self.num_experts_per_tok]))
    (view_shape hidden_states [B, S, 1, H]) hw self.experts.gate_up_proj_bias_shape
  obtain ⟨hashape, haget⟩ := self.activated_spec hgshape
  obtain ⟨d, hd, hdshape, hdget⟩ := down_stage ((zeros [B, S, 1, E] : Tensor R).scatterLast
    (router_indices.view [B, S, 1, self.num_experts_per_tok]) (ones [B, S, 1, self.num_experts_per_tok])) hashape rfl
    (view_shape self.experts.down_proj [1, E, I, H]) self.experts.down_proj_bias_shape
  unfold forward
  rw [hhidden]
  dsimp only
  rw [hg]
  simp only [Option.bind_eq_bind, Option.bind_some]
  rw [hd]
  refine ⟨_, rfl, rfl, fun b s h hb hs hh => ?_⟩
  have ht : b * S + s < B * S := group_lt hb hs
  obtain ⟨hsumshape, hsumget⟩ := scattered_sum hdshape
    (view_shape router_indices [B * S, self.num_experts_per_tok]) (router_scores.view [B * S, self.num_experts_per_tok])
  refine (view_get [b * S + s, h] hsumshape ?_ ?_).trans ((hsumget _ h ht hh ?_ ?_).trans ?_)
  · simp [ht, hh]
  · simp only [ravel_cons, ravel_nil, List.prod_cons, List.prod_nil]
    ring
  · intro k hk
    rw [← htop]
    exact top.lt _ ht k hk
  · intro k hk k' hk' he
    rw [← htop] at he
    exact top.distinct _ ht k hk k' hk' he
  · apply Finset.sum_congr rfl
    intro k hk
    have hk' : k < self.num_experts_per_tok := Finset.mem_range.mp hk
    have he := top.lt _ ht k hk'
    have hmark : ((zeros [B, S, 1, E] : Tensor R).scatterLast
        (router_indices.view [B, S, 1, self.num_experts_per_tok]) (ones [B, S, 1, self.num_experts_per_tok])).get
        [b, s, 0, top.indices.get [b * S + s, k]] = 1 := by
      rw [token_marks_get hindex]
      apply if_pos
      refine ⟨k, hk', ?_⟩
      rw [htop]
      apply view_congr
      simp only [ravel_cons, ravel_nil, List.prod_cons, List.prod_nil]
      ring
    have hgate_up : ∀ n < I * 2, (g.view [B, S, E, I * 2] +
        self.experts.gate_up_proj_bias).get [b, s, top.indices.get [b * S + s, k], n] =
        self.experts.gate_up 1 (top.indices.get [b * S + s, k])
          (fun j => hidden_states.get [b, s, j]) n := by
      intro n hn
      rw [hgget b s _ n hb hs he hn, hmark, Experts.gate_up]
      refine congrArg₂ (· + ·) (congrArg (· * 1) ?_) rfl
      apply Finset.sum_congr rfl
      intro j hj
      have hj' : j < H := Finset.mem_range.mp hj
      refine congrArg₂ (· * ·) ?_ rfl
      apply view_get _ hhidden
      · simp [hb, hs, hj']
      · simp only [ravel_cons, ravel_nil, List.prod_cons, List.prod_nil]
        ring
    rw [← htop, hdget b s _ h hb hs he hh, hmark, Experts.output, Experts.masked_output]
    apply congrArg₂ (· * ·)
    · refine congrArg₂ (· + ·) (congrArg (· * 1) ?_) rfl
      apply Finset.sum_congr rfl
      intro i hi
      have hi' : i < I := Finset.mem_range.mp hi
      rw [haget b s _ i hb hs he hi', hgate_up _ (by omega), hgate_up _ (by omega)]
      refine congrArg₂ (· * ·) rfl ?_
      apply view_get _ self.experts.down_proj_shape
      · simp [he, hi', hh]
      · simp only [ravel_cons, ravel_nil, List.prod_cons, List.prod_nil]
        ring
    · apply view_congr
      simp only [ravel_cons, ravel_nil, List.prod_cons, List.prod_nil]
      ring

end SparseMLP

section Stacked

variable {original : SparseMLP R E H I} {stacked : A2aSparseStackedMlp R E H I} {D B S : Nat}
  {hidden_states : Tensor R} (router_scores : Tensor R) {router_indices : Tensor Nat}
  (top : TopK (B * S) E original.num_experts_per_tok)

-- The gates and ups of the stacked weights are those of the interleaved ones.
omit [CommRing R] [LinearOrder R] in
theorem deinterleave_get {t : Tensor R} (ds pre : List Nat)
    (hshape : t.shape = ds ++ [I * 2]) (n : Nat) :
    (catLast (t.slice 0 2 I) (t.slice 1 2 I)).get (pre ++ [n]) =
      if n < I then t.get (pre ++ [2 * n]) else t.get (pre ++ [1 + 2 * (n - I)]) := by
  have hlast : last (t.slice 0 2 I).shape = I := by
    unfold slice
    rw [hshape, setLast_append, last_append]
  unfold catLast
  dsimp only
  rw [hlast, last_append, setLast_append]
  unfold slice
  dsimp only
  rw [setLast_append, setLast_append, last_append, last_append, Nat.zero_add]

omit [CommRing R] [LinearOrder R] in
theorem deinterleave_shape {t : Tensor R} (ds : List Nat) (hshape : t.shape = ds ++ [I * 2]) :
    (catLast (t.slice 0 2 I) (t.slice 1 2 I)).shape = ds ++ [I * 2] := by
  have hslice : ∀ start, (t.slice start 2 I).shape = ds ++ [I] := by
    intro start
    unfold slice
    rw [hshape, setLast_append]
  unfold catLast
  rw [hslice, hslice, setLast_append, last_append, Nat.mul_two]

-- Clamping the gates and ups together, and the ups from below afterwards, is the same when the
-- bounds are in order.
theorem stacked_activated_spec (act : A2aSparseStackedMlp R E H I)
    (hlimit : -act.limit ≤ act.limit) {gate_up_out : Tensor R} {P Q : Nat}
    (hshape : gate_up_out.shape = [P, Q, E, I * 2]) :
    (act.activated gate_up_out).shape = [P, Q, E, I] ∧
      ∀ p q e i, p < P → q < Q → e < E → i < I →
        (act.activated gate_up_out).get [p, q, e, i] =
          (Activation.mk .gpt_oss act.sigmoid id act.alpha act.limit).scalar
            (gate_up_out.get [p, q, e, i]) (gate_up_out.get [p, q, e, I + i]) := by
  have hslice : ∀ start, ((gate_up_out.clampMax act.limit).slice start 1 I).shape =
      [P, Q, E, I] := by
    intro start
    change setLast gate_up_out.shape I = _
    rw [hshape]
    rfl
  have hglu : ∀ t : Tensor R, t.shape = [P, Q, E, I] → bshape t.shape t.shape = [P, Q, E, I] := by
    intro t ht
    rw [bshape_self, ht]
  unfold A2aSparseStackedMlp.activated
  refine ⟨?_, fun p q e i hp hq he hi => ?_⟩
  · change bshape ((gate_up_out.clampMax act.limit).slice I 1 I).shape
      (bshape ((gate_up_out.clampMax act.limit).slice 0 1 I).shape
        ((gate_up_out.clampMax act.limit).slice 0 1 I).shape) = _
    rw [hslice, hslice, bshape_self, bshape_self]
  · have hin : InBounds [p, q, e, i] [P, Q, E, I] := by simp [hp, hq, he, hi]
    dsimp only
    rw [mul_get]
    · rw [mul_get]
      · change (max (min (gate_up_out.get [p, q, e, I + 1 * i]) act.limit) (-act.limit) + 1) *
          (min (gate_up_out.get [p, q, e, 0 + 1 * i]) act.limit *
            act.sigmoid (min (gate_up_out.get [p, q, e, 0 + 1 * i]) act.limit * act.alpha)) =
          (min (max (gate_up_out.get [p, q, e, I + i]) (-act.limit)) act.limit + 1) *
          (min (gate_up_out.get [p, q, e, i]) act.limit *
            act.sigmoid (min (gate_up_out.get [p, q, e, i]) act.limit * act.alpha))
        rw [Nat.one_mul, Nat.zero_add, max_min_distrib_right, max_eq_left hlimit]
      · exact (hslice 0).symm ▸ hin
      · exact (hslice 0).symm ▸ hin
    · exact (hslice I).symm ▸ hin
    · change InBounds _ (bshape ((gate_up_out.clampMax act.limit).slice 0 1 I).shape
        ((gate_up_out.clampMax act.limit).slice 0 1 I).shape)
      rw [hslice, bshape_self]
      exact hin

-- The gates and ups of the stacked module, for a token and one of its experts.
theorem stacked_gate_up {act : Activation R} {x : Nat → R} {out w bias : Tensor R}
    (hw : w = (catLast (original.experts.gate_up_proj.slice 0 2 I)
      (original.experts.gate_up_proj.slice 1 2 I)).unsqueeze 0)
    (hbias : bias = catLast (original.experts.gate_up_proj_bias.slice 0 2 I)
      (original.experts.gate_up_proj_bias.slice 1 2 I)) {p q e i : Nat} (hi : i < I)
    (hget : ∀ n < I * 2, out.get [p, q, e, n] =
      (∑ j ∈ Finset.range H, x j * w.get [0, e, j, n]) * 1 + bias.get [e, n]) :
    act.scalar (out.get [p, q, e, i]) (out.get [p, q, e, I + i]) =
      act.scalar (original.experts.gate_up 1 e x (2 * i))
        (original.experts.gate_up 1 e x (1 + 2 * i)) := by
  have hproj : ∀ j n, w.get [0, e, j, n] =
      if n < I then original.experts.gate_up_proj.get [e, j, 2 * n]
      else original.experts.gate_up_proj.get [e, j, 1 + 2 * (n - I)] := by
    intro j n
    rw [hw]
    exact deinterleave_get [E, H] [e, j] original.experts.gate_up_proj_shape n
  have hbias' : ∀ n, bias.get [e, n] =
      if n < I then original.experts.gate_up_proj_bias.get [e, 2 * n]
      else original.experts.gate_up_proj_bias.get [e, 1 + 2 * (n - I)] := by
    intro n
    rw [hbias]
    exact deinterleave_get [E] [e] original.experts.gate_up_proj_bias_shape n
  rw [hget i (by omega), hget (I + i) (by omega), hbias', hbias']
  simp only [hproj, if_pos hi, if_neg (show ¬I + i < I by omega), Nat.add_sub_cancel_left]
  rfl

-- The weights of the slots, over the outputs that combine gathers.
omit [LinearOrder R] in
theorem slots_sum {combined : Tensor R} {K : Nat} (hcombined : combined.shape = [K, B, S, H]) :
    let output := ((combined * ((router_scores.view [B, S, K]).permute
      [2, 0, 1]).unsqueeze 3).sum 0).view [B, S, H]
    output.shape = [B, S, H] ∧ ∀ b s h, b < B → s < S → h < H →
      output.get [b, s, h] =
        ∑ k ∈ Finset.range K, combined.get [k, b, s, h] *
          (router_scores.view [B, S, K]).get [b, s, k] := by
  intro output
  have hmul : (combined * ((router_scores.view [B, S, K]).permute [2, 0, 1]).unsqueeze 3).shape =
      [K, B, S, H] := by
    change bshape combined.shape [K, B, S, 1] = _
    rw [hcombined]
    change [if K = 1 then K else K, if B = 1 then B else B, if S = 1 then S else S,
      if H = 1 then 1 else H] = _
    rw [ite_self, ite_self, ite_self, bdim_one]
  have hsum : ((combined * ((router_scores.view [B, S, K]).permute
      [2, 0, 1]).unsqueeze 3).sum 0).shape = [B, S, H] := by
    rw [sum_shape, hmul]
    rfl
  refine ⟨rfl, fun b s h hb hs hh => ?_⟩
  refine (view_get [b, s, h] hsum ?_ rfl).trans ?_
  · simp [hb, hs, hh]
  · rw [sum_get, hmul]
    apply Finset.sum_congr rfl
    intro k hk
    have hk' : k < K := Finset.mem_range.mp hk
    change combined.bget [k, b, s, h] * (router_scores.view [B, S, K]).get
      [if B = 1 then 0 else b, if S = 1 then 0 else s, if K = 1 then 0 else k] = _
    rw [bget_eq _ (by simp [hcombined, hk', hb, hs, hh]), bcast_of_lt hb, bcast_of_lt hs,
      bcast_of_lt hk']

omit [CommRing R] [LinearOrder R] in
theorem A2aSparseStackedMlp.init_spec
    (hinit : A2aSparseStackedMlp.init original D = some stacked) :
    0 < D ∧ stacked = {
      gate_up_proj := (catLast (original.experts.gate_up_proj.slice 0 2 I)
        (original.experts.gate_up_proj.slice 1 2 I)).unsqueeze 0
      gate_up_proj_bias := catLast (original.experts.gate_up_proj_bias.slice 0 2 I)
        (original.experts.gate_up_proj_bias.slice 1 2 I)
      down_proj := original.experts.down_proj.view [1, E, I, H]
      down_proj_bias := original.experts.down_proj_bias
      num_experts_per_tok := original.num_experts_per_tok
      num_devices := D
      sigmoid := original.sigmoid
      alpha := original.alpha
      limit := original.limit } := by
  unfold init at hinit
  by_cases hD : D ≠ 0 ∧ E % D = 0
  · simp only [guard, if_pos hD] at hinit
    exact ⟨by omega, (Option.some.inj hinit).symm⟩
  · simp only [guard, if_neg hD] at hinit
    cases hinit

-- Each token gets the outputs of its experts.
theorem A2aSparseStackedMlp.forward_spec (hinit : A2aSparseStackedMlp.init original D =
      some stacked) (hlimit : -original.limit ≤ original.limit)
    (hhidden : hidden_states.shape = [B, S, H])
    (htop : top.indices = router_indices.view [B * S, original.num_experts_per_tok]) :
    ∃ out, stacked.forward hidden_states router_scores router_indices = some out ∧
      IsTopKMoE original.experts original.act original.num_experts_per_tok top.indices
        (router_scores.view [B, S, original.num_experts_per_tok]) hidden_states B S out := by
  obtain ⟨hD, hstacked⟩ := A2aSparseStackedMlp.init_spec hinit
  have hw : stacked.gate_up_proj.shape = [1, E, H, I * 2] := by
    rw [hstacked]
    dsimp only
    rw [unsqueeze_shape, deinterleave_shape [E, H] original.experts.gate_up_proj_shape]
    rfl
  have hbias : stacked.gate_up_proj_bias.shape = [E, I * 2] := by
    rw [hstacked]
    exact deinterleave_shape [E] original.experts.gate_up_proj_bias_shape
  have hdown : stacked.down_proj.shape = [1, E, I, H] := by
    rw [hstacked]
    rfl
  have hdownbias : stacked.down_proj_bias.shape = [E, H] := by
    rw [hstacked]
    exact original.experts.down_proj_bias_shape
  have hK : stacked.num_experts_per_tok = original.num_experts_per_tok := by rw [hstacked]
  have hnum : stacked.num_devices = D := by rw [hstacked]
  have hlimit' : -stacked.limit ≤ stacked.limit := by
    rw [hstacked]
    exact hlimit
  obtain ⟨dispatched, metadata, hdispatch, hdshape, hmshape, hdget, hmget⟩ :=
    all_to_all_dispatch_spec (view_shape hidden_states [B, 1, S, H])
      (view_shape router_indices [B, 1, S, original.num_experts_per_tok]) hD
  obtain ⟨g, hg, hgshape, hgget⟩ := gate_up_stage
    ((zeros [B * D, S, 1, E] : Tensor R).scatterLast
      (metadata.view [B * D, S, 1, original.num_experts_per_tok])
      (ones [B * D, S, 1, original.num_experts_per_tok]))
    (view_shape dispatched [B * D, S, 1, H]) hw hbias
  obtain ⟨hashape, haget⟩ := stacked_activated_spec stacked hlimit' hgshape
  obtain ⟨d, hd, hdownshape, hdownget⟩ := down_stage
    ((zeros [B * D, S, 1, E] : Tensor R).scatterLast
      (metadata.view [B * D, S, 1, original.num_experts_per_tok])
      (ones [B * D, S, 1, original.num_experts_per_tok])) hashape rfl hdown hdownbias
  have hcin : (((d.squeeze 2 + stacked.down_proj_bias).view [B * D, S, E, H]).permute
      [2, 0, 1, 3]).shape = [E, B * D, S, H] := rfl
  obtain ⟨combined, hcombined, hcshape, hcget⟩ := all_to_all_combine_spec metadata
    original.num_experts_per_tok hD hcin
  rw [Nat.mul_div_cancel _ hD] at hcshape
  obtain ⟨hsumshape, hsumget⟩ := slots_sum router_scores hcshape
  refine ⟨_, ?_, hsumshape, fun b s h hb hs hh => ?_⟩
  · unfold forward
    rw [hhidden]
    dsimp only
    rw [hK, hnum, hdispatch]
    dsimp only
    rw [hdshape]
    simp only [List.getD_cons_succ, List.getD_cons_zero]
    rw [hg]
    simp only [Option.bind_eq_bind, Option.bind_some]
    rw [hd]
    simp only [Option.bind_some]
    rw [hcombined]
    rfl
  · rw [hsumget b s h hb hs hh]
    apply Finset.sum_congr rfl
    intro k hk
    have hk' : k < original.num_experts_per_tok := Finset.mem_range.mp hk
    have hbD : b < B * D := Nat.lt_of_lt_of_le hb (Nat.le_mul_of_pos_right B hD)
    have he := top.lt _ (group_lt hb hs) k hk'
    have hmeta : metadata.get [0, b, s, k] = top.indices.get [b * S + s, k] := by
      rw [hmget b hbD s hs k hk', Nat.mod_eq_of_lt hb, htop]
      apply view_congr
      simp only [ravel_cons, ravel_nil, List.prod_cons, List.prod_nil]
      ring
    have hmark : ((zeros [B * D, S, 1, E] : Tensor R).scatterLast
        (metadata.view [B * D, S, 1, original.num_experts_per_tok])
        (ones [B * D, S, 1, original.num_experts_per_tok])).get
        [b, s, 0, top.indices.get [b * S + s, k]] = 1 := by
      rw [token_marks_get rfl]
      apply if_pos
      refine ⟨k, hk', (view_get [0, b, s, k] hmshape ?_ ?_).trans hmeta⟩
      · simp [hbD, hs, hk']
      · simp only [ravel_cons, ravel_nil, List.prod_cons, List.prod_nil]
        ring
    have hout : (((d.squeeze 2 + stacked.down_proj_bias).view [B * D, S, E, H]).permute
        [2, 0, 1, 3]).get [top.indices.get [b * S + s, k], b, s, h] =
        (d.squeeze 2 + stacked.down_proj_bias).get
          [b * S + s, top.indices.get [b * S + s, k], h] := by
      change ((d.squeeze 2 + stacked.down_proj_bias).view [B * D, S, E, H]).get
        [b, s, top.indices.get [b * S + s, k], h] = _
      apply view_get _ hdownshape
      · simp [group_lt hbD hs, he, hh]
      · simp only [ravel_cons, ravel_nil, List.prod_cons, List.prod_nil]
        ring
    rw [hcget k b s h (hmeta ▸ he), hmeta, hout, hdownget b s _ h hbD hs he hh, hmark,
      Experts.output, Experts.masked_output]
    refine congrArg₂ (· * ·) (congrArg₂ (· + ·) (congrArg (· * 1) ?_) ?_) rfl
    · apply Finset.sum_congr rfl
      intro i hi
      have hi' : i < I := Finset.mem_range.mp hi
      rw [haget b s _ i hbD hs he hi']
      apply congrArg₂ (· * ·)
      · have hact : Activation.mk .gpt_oss stacked.sigmoid id stacked.alpha stacked.limit =
            original.act := by
          rw [hstacked]
          rfl
        rw [hact]
        apply stacked_gate_up (congrArg (·.gate_up_proj) hstacked)
          (congrArg (·.gate_up_proj_bias) hstacked) hi'
        intro n hn
        rw [hgget b s _ n hbD hs he hn, hmark]
        refine congrArg₂ (· + ·) (congrArg (· * 1) ?_) rfl
        apply Finset.sum_congr rfl
        intro j hj
        have hj' : j < H := Finset.mem_range.mp hj
        refine congrArg₂ (· * ·) ?_ rfl
        refine (view_get [0, b, s, j] hdshape ?_ ?_).trans
          ((hdget b hbD s hs j hj').trans ?_)
        · simp [hbD, hs, hj']
        · simp only [ravel_cons, ravel_nil, List.prod_cons, List.prod_nil]
          ring
        · rw [Nat.mod_eq_of_lt hb]
          apply view_get _ hhidden
          · simp [hb, hs, hj']
          · simp only [ravel_cons, ravel_nil, List.prod_cons, List.prod_nil]
            ring
      · rw [hstacked]
        apply view_get _ original.experts.down_proj_shape
        · simp [he, hi', hh]
        · simp only [ravel_cons, ravel_nil, List.prod_cons, List.prod_nil]
          ring
    · rw [hstacked]

-- Both modules return a tensor, and it is the same.
def OutputsAgree (original : SparseMLP R E H I) (stacked : A2aSparseStackedMlp R E H I)
    (hidden_states router_scores : Tensor R) (router_indices : Tensor Nat) : Prop :=
  ∃ out out', original.forward hidden_states router_scores router_indices = some out ∧
    stacked.forward hidden_states router_scores router_indices = some out' ∧ Same out out'

end Stacked

section Example

-- One expert, with a constant sigmoid and weights of one.
def unitSparse (limit : ℚ) : SparseMLP ℚ 1 1 1 where
  experts := {
    gate_up_proj := ones [1, 1, 2]
    gate_up_proj_bias := ones [1, 2]
    down_proj := ones [1, 1, 1]
    down_proj_bias := zeros [1, 1]
    gate_up_proj_shape := rfl
    gate_up_proj_bias_shape := rfl
    down_proj_shape := rfl
    down_proj_bias_shape := rfl }
  num_experts_per_tok := 1
  sigmoid := fun _ => 1
  alpha := 1
  limit := limit

def unitStacked (limit : ℚ) : A2aSparseStackedMlp ℚ 1 1 1 where
  gate_up_proj := (catLast (ones [1, 1, 1]) (ones [1, 1, 1])).unsqueeze 0
  gate_up_proj_bias := catLast (ones [1, 1]) (ones [1, 1])
  down_proj := (ones [1, 1, 1]).view [1, 1, 1, 1]
  down_proj_bias := zeros [1, 1]
  num_experts_per_tok := 1
  num_devices := 1
  sigmoid := fun _ => 1
  alpha := 1
  limit := limit

def firstExpert : TopK (1 * 1) 1 1 where
  indices := (zeros [1, 1, 1]).view [1 * 1, 1]
  indices_shape := rfl
  lt := fun _ _ _ _ => Nat.one_pos
  distinct := fun _ _ _ hk _ hk' _ =>
    (Nat.lt_one_iff.mp hk).trans (Nat.lt_one_iff.mp hk').symm

end Example

end TTXla.TTTorch

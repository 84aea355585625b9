import TTXla.TTTorch.SparseMLP.Paths
import Mathlib.Algebra.BigOperators.Ring.Finset

-- How the tokens are dispatched and grouped, and what the masks say about a group.
namespace TTXla.TTTorch

open Tensor

variable {R : Type} [CommRing R] [LinearOrder R] {E H I : Nat}

namespace A2aSparseMLP

-- The token at a place of a group, and the place of a token.
def token_at (seq_len a b m : Nat) : Nat × Nat :=
  if split_seq seq_len then (a, b * M + m) else (a * M + m, b)

def place_of (seq_len b s : Nat) : Nat × Nat × Nat :=
  if split_seq seq_len then (b, s / M, s % M) else (b / M, s, b % M)

section Groups

variable {BD S : Nat}

theorem M_pos : 0 < M := by decide

-- The groups cover the tokens.
theorem place_of_spec (hacc : split_seq S ∨ split_bd BD) {b s : Nat} (hb : b < BD) (hs : s < S) :
    (place_of S b s).1 < (dims BD S).1 ∧ (place_of S b s).2.1 < (dims BD S).2 ∧
      (place_of S b s).2.2 < M ∧
      token_at S (place_of S b s).1 (place_of S b s).2.1 (place_of S b s).2.2 = (b, s) := by
  have hM := M_pos
  unfold place_of dims token_at
  by_cases hseq : split_seq S
  · have hdvd : S % M = 0 := (of_decide_eq_true hseq).1
    simp only [hseq, if_true]
    refine ⟨hb, ?_, Nat.mod_lt _ hM, ?_⟩
    · exact Nat.div_lt_div_of_lt_of_dvd (Nat.dvd_of_mod_eq_zero hdvd) hs
    · rw [Nat.div_add_mod']
  · have hbd := hacc.resolve_left hseq
    have hdvd : BD % M = 0 := (of_decide_eq_true hbd).1
    simp only [hseq]
    refine ⟨?_, hs, Nat.mod_lt _ hM, ?_⟩
    · exact Nat.div_lt_div_of_lt_of_dvd (Nat.dvd_of_mod_eq_zero hdvd) hb
    · change (b / M * M + b % M, s) = (b, s)
      rw [Nat.div_add_mod']

theorem token_at_lt {a b m : Nat} (ha : a < (dims BD S).1)
    (hb : b < (dims BD S).2) (hm : m < M) :
    (token_at S a b m).1 < BD ∧ (token_at S a b m).2 < S := by
  unfold dims at ha hb
  unfold token_at
  by_cases hseq : split_seq S
  · have hdvd : S % M = 0 := (of_decide_eq_true hseq).1
    simp only [hseq, if_true] at ha hb ⊢
    refine ⟨ha, ?_⟩
    calc b * M + m < S / M * M := group_lt hb hm
      _ ≤ S := Nat.div_mul_le_self S M
  · simp only [hseq] at ha hb ⊢
    refine ⟨?_, hb⟩
    calc a * M + m < BD / M * M := group_lt ha hm
      _ ≤ BD := Nat.div_mul_le_self BD M

-- One of the dimensions is a multiple of the size of a group.
theorem split_cases (hacc : split_seq S ∨ split_bd BD) :
    (split_seq S = true ∧ ∃ q, S = q * M ∧ dims BD S = (BD, q)) ∨
      (split_seq S = false ∧ ∃ q, BD = q * M ∧ dims BD S = (q, S)) := by
  have hM := M_pos
  unfold dims
  cases hseq : split_seq S with
  | true =>
      have hdvd : S % M = 0 := (of_decide_eq_true hseq).1
      left
      refine ⟨rfl, S / M, ?_, rfl⟩
      rw [Nat.div_mul_cancel (Nat.dvd_of_mod_eq_zero hdvd)]
  | false =>
      rw [hseq] at hacc
      have hdvd : BD % M = 0 := (of_decide_eq_true (hacc.resolve_left nofun)).1
      right
      refine ⟨rfl, BD / M, ?_, rfl⟩
      rw [Nat.div_mul_cancel (Nat.dvd_of_mod_eq_zero hdvd)]

omit [CommRing R] [LinearOrder R] in
theorem group_tokens_spec {dispatched : Tensor R} (hshape : dispatched.shape = [1, BD, S, H])
    (hacc : split_seq S ∨ split_bd BD) :
    (group_tokens dispatched BD S (dims BD S).2 H).shape =
      [(dims BD S).1, (dims BD S).2, M, H] ∧
    ∀ a b m j, a < (dims BD S).1 → b < (dims BD S).2 → m < M → j < H →
      (group_tokens dispatched BD S (dims BD S).2 H).get [a, b, m, j] =
        dispatched.get [0, (token_at S a b m).1, (token_at S a b m).2, j] := by
  have hM := M_pos
  unfold group_tokens token_at
  rcases split_cases hacc with ⟨hseq, q, rfl, hdims⟩ | ⟨hseq, q, rfl, hdims⟩
  · rw [hdims, hseq, Nat.mul_div_cancel _ hM]
    refine ⟨rfl, fun a b m j ha hb hm hj => ?_⟩
    apply view_get _ hshape
    · simp [ha, group_lt hb hm, hj]
    · simp only [ravel_cons, ravel_nil, List.prod_cons, List.prod_nil, if_true]
      ring
  · rw [hdims, hseq, Nat.mul_div_cancel _ hM]
    by_cases hone : S = 1
    · subst hone
      refine ⟨rfl, fun a b m j ha hb hm hj => ?_⟩
      obtain rfl : b = 0 := by omega
      apply view_get _ hshape
      · simp [group_lt ha hm, hj]
      · simp only [ravel_cons, ravel_nil, List.prod_cons, List.prod_nil, Bool.false_eq_true,
          if_false]
        ring
    · simp only [if_neg hone]
      refine ⟨rfl, fun a b m j ha hb hm hj => ?_⟩
      change (dispatched.view [q, M, S, H]).get [a, m, b, j] = _
      apply view_get _ hshape
      · simp [group_lt ha hm, hb, hj]
      · simp only [ravel_cons, ravel_nil, List.prod_cons, List.prod_nil, Bool.false_eq_true,
          if_false]
        ring

-- The outputs of a token are those at its place.
omit [CommRing R] [LinearOrder R] in
theorem ungroup_spec {down_out : Tensor R}
    (hshape : down_out.shape = [(dims BD S).1, (dims BD S).2, M, E, H])
    (hacc : split_seq S ∨ split_bd BD) :
    let out := ungroup (E := E) down_out BD S (dims BD S).2 H
    let place := fun b s => place_of S b s
    (¬((dims BD S).2 = 1 ∧ ¬split_seq S) ∧ S ≠ 1 ∧ out.shape = [E, BD, S, H] ∧
      ∀ e b s h, e < E → b < BD → s < S → h < H → out.get [e, b, s, h] =
        down_out.get [(place b s).1, (place b s).2.1, (place b s).2.2, e, h]) ∨
    (((dims BD S).2 = 1 ∧ ¬split_seq S) ∧ S = 1 ∧ out.shape = [E, 1, BD, H] ∧
      ∀ e b h, e < E → b < BD → h < H → out.get [e, 0, b, h] =
        down_out.get [(place b 0).1, (place b 0).2.1, (place b 0).2.2, e, h]) := by
  have hM := M_pos
  unfold ungroup place_of
  dsimp only
  rcases split_cases hacc with ⟨hseq, q, rfl, hdims⟩ | ⟨hseq, q, rfl, hdims⟩
  · left
    rw [hdims] at hshape ⊢
    have hone : q * M ≠ 1 := by
      have hle : 32 ≤ q * M := (of_decide_eq_true hseq).2
      omega
    refine ⟨by simp [hseq], hone, by simp [hseq, view], fun e b s h he hb hs hh => ?_⟩
    have hperm : (down_out.permute [3, 0, 1, 2, 4]).shape = [E, BD, q, M, H] := by
      unfold permute
      rw [hshape]
      rfl
    have hdm := Nat.div_add_mod' s M
    have hq : s / M < q := Nat.div_lt_of_lt_mul (by rwa [Nat.mul_comm] at hs)
    simp only [hseq, if_true]
    refine (view_get [e, b, s / M, s % M, h] hperm ?_ ?_).trans rfl
    · simp [he, hb, hq, Nat.mod_lt s hM, hh]
    · simp only [ravel_cons, ravel_nil, List.prod_cons, List.prod_nil]
      conv_lhs => rw [← hdm]
      ring
  · rw [hdims] at hshape ⊢
    by_cases hone : S = 1
    · subst hone
      right
      have hsq : (down_out.squeeze 1).shape = [q, M, E, H] := by
        unfold squeeze
        rw [hshape]
        rfl
      have hsqget : ∀ a m e h, (down_out.squeeze 1).get [a, m, e, h] =
          down_out.get [a, 0, m, e, h] := by
        intro a m e h
        unfold squeeze
        rw [hshape]
        rfl
      have hperm : ((down_out.squeeze 1).permute [2, 0, 1, 3]).shape = [E, q, M, H] := by
        unfold permute
        rw [hsq]
        rfl
      refine ⟨⟨rfl, by simp [hseq]⟩, rfl, by simp [hseq, unsqueeze, view],
        fun e b h he hb hh => ?_⟩
      have hdm := Nat.div_add_mod' b M
      have hq : b / M < q := Nat.div_lt_of_lt_mul (by rwa [Nat.mul_comm] at hb)
      simp only [hseq, Bool.false_eq_true, if_false, if_true]
      refine (view_get [e, b / M, b % M, h] hperm ?_ ?_).trans (hsqget _ _ _ _)
      · simp [he, hq, Nat.mod_lt b hM, hh]
      · change ravel [E, q * M, H] [e, b, h] = _
        simp only [ravel_cons, ravel_nil, List.prod_cons, List.prod_nil]
        conv_lhs => rw [← hdm]
        ring
    · left
      have hperm : (down_out.permute [3, 0, 2, 1, 4]).shape = [E, q, M, S, H] := by
        unfold permute
        rw [hshape]
        rfl
      refine ⟨by simp [hone], hone, by simp [hseq, hone, view], fun e b s h he hb hs hh => ?_⟩
      have hdm := Nat.div_add_mod' b M
      have hq : b / M < q := Nat.div_lt_of_lt_mul (by rwa [Nat.mul_comm] at hb)
      simp only [hseq, hone, Bool.false_eq_true, if_false]
      refine (view_get [e, b / M, b % M, s, h] hperm ?_ ?_).trans rfl
      · simp [he, hq, Nat.mod_lt b hM, hs, hh]
      · simp only [ravel_cons, ravel_nil, List.prod_cons, List.prod_nil]
        conv_lhs => rw [← hdm]
        ring

end Groups

section Masks

variable [IsStrictOrderedRing R] {BD S : Nat}

-- Capped at one, a count tells whether there is one.
theorem min_count (P : Nat → Prop) [DecidablePred P] (n : Nat) :
    min (∑ m ∈ Finset.range n, if P m then (1 : R) else 0) 1 =
      if ∃ m < n, P m then 1 else 0 := by
  rw [Finset.sum_boole]
  split
  · rename_i h
    obtain ⟨m, hm, hp⟩ := h
    apply min_eq_right
    have hpos : 0 < (Finset.filter P (Finset.range n)).card :=
      Finset.card_pos.mpr ⟨m, Finset.mem_filter.mpr ⟨Finset.mem_range.mpr hm, hp⟩⟩
    exact_mod_cast hpos
  · rename_i h
    have hempty : Finset.filter P (Finset.range n) = ∅ := by
      apply Finset.filter_eq_empty_iff.mpr
      intro m hm hp
      exact h ⟨m, Finset.mem_range.mp hm, hp⟩
    rw [hempty, Finset.card_empty, Nat.cast_zero]
    exact min_eq_left zero_le_one

omit [LinearOrder R] [IsStrictOrderedRing R] in
theorem marks_get {index : Tensor Nat} {P Q K : Nat} (hshape : index.shape = [P, Q, K])
    (p s e : Nat) :
    ((zeros [P, Q, 1, E] : Tensor R).scatterLast (index.unsqueeze 2) (ones [P, Q, 1, K])).get
      [p, s, 0, e] = if ∃ k < K, index.get [p, s, k] = e then 1 else 0 := by
  have hlast : last (index.unsqueeze 2).shape = K := by
    unfold unsqueeze
    rw [hshape]
    rfl
  rw [scatterLast_ones, hlast]
  rfl

-- The manual mask has the experts that a token of the group selects.
theorem manual_sparsity_spec (self : A2aSparseMLP R E H I) {metadata : Tensor Nat}
    (hshape : metadata.shape = [1, BD, S, self.num_experts_per_tok])
    (hacc : split_seq S ∨ split_bd BD) :
    (self.manual_sparsity metadata BD S).shape = [(dims BD S).1, (dims BD S).2, 1, E] ∧
    ∀ a b e, a < (dims BD S).1 → b < (dims BD S).2 → e < E →
      (self.manual_sparsity metadata BD S).get [a, b, 0, e] =
        if ∃ m < M, ∃ k < self.num_experts_per_tok,
          metadata.get [0, (token_at S a b m).1, (token_at S a b m).2, k] = e then 1 else 0 := by
  have hM := M_pos
  have hsel : (metadata.select 0).shape = [BD, S, self.num_experts_per_tok] := by
    unfold select
    rw [hshape]
    rfl
  unfold manual_sparsity token_at
  rcases split_cases hacc with ⟨hseq, q, rfl, hdims⟩ | ⟨hseq, q, rfl, hdims⟩
  · rw [hdims, hseq, Nat.mul_div_cancel _ hM]
    refine ⟨rfl, fun a b e ha hb he => ?_⟩
    simp only [if_true]
    rw [← min_count, unsqueeze_get, clampMax_get, sum_get]
    congr 1
    apply Finset.sum_congr rfl
    intro m hm
    have hm' : m < M := Finset.mem_range.mp hm
    have hflat : ∀ k < self.num_experts_per_tok,
        (((metadata.select 0).view [BD, q, M, self.num_experts_per_tok]).view
          [BD, q * M, self.num_experts_per_tok]).get [a, b * M + m, k] =
        metadata.get [0, a, b * M + m, k] := by
      intro k hk
      refine (view_get [a, b, m, k] (view_shape _ _) ?_ ?_).trans
        (view_get [a, b * M + m, k] hsel ?_ ?_)
      · simp [ha, hb, hm', hk]
      · simp only [ravel_cons, ravel_nil, List.prod_cons, List.prod_nil]
        ring
      · simp [ha, group_lt hb hm', hk]
      · simp only [ravel_cons, ravel_nil, List.prod_cons, List.prod_nil]
        ring
    refine (view_get [a, b * M + m, 0, e] ((scatterLast_shape _ _ _).trans (zeros_shape _))
      ?_ ?_).trans ?_
    · simp [ha, group_lt hb hm', he]
    · change ravel [BD, q, M, E] [a, b, m, e] = ravel [BD, q * M, 1, E] [a, b * M + m, 0, e]
      simp only [ravel_cons, ravel_nil, List.prod_cons, List.prod_nil]
      ring
    · rw [marks_get (view_shape _ _)]
      apply if_congr _ rfl rfl
      apply exists_congr
      intro k
      apply and_congr_right
      intro hk
      rw [hflat k hk]
  · rw [hdims, hseq, Nat.mul_div_cancel _ hM]
    refine ⟨rfl, fun a b e ha hb he => ?_⟩
    simp only [Bool.false_eq_true, if_false]
    rw [← min_count, unsqueeze_get, clampMax_get, sum_get]
    congr 1
    apply Finset.sum_congr rfl
    intro m hm
    have hm' : m < M := Finset.mem_range.mp hm
    have hflat : ∀ k < self.num_experts_per_tok,
        (((metadata.select 0).view [q, M, S, self.num_experts_per_tok]).view
          [q * M, S, self.num_experts_per_tok]).get [a * M + m, b, k] =
        metadata.get [0, a * M + m, b, k] := by
      intro k hk
      refine (view_get [a, m, b, k] (view_shape _ _) ?_ ?_).trans
        (view_get [a * M + m, b, k] hsel ?_ ?_)
      · simp [ha, hb, hm', hk]
      · simp only [ravel_cons, ravel_nil, List.prod_cons, List.prod_nil]
        ring
      · simp [hb, group_lt ha hm', hk]
      · simp only [ravel_cons, ravel_nil, List.prod_cons, List.prod_nil]
        ring
    refine (view_get [a * M + m, b, 0, e] ((scatterLast_shape _ _ _).trans (zeros_shape _))
      ?_ ?_).trans ?_
    · simp [hb, group_lt ha hm', he]
    · change ravel [q, M, S, E] [a, m, b, e] = ravel [q * M, S, 1, E] [a * M + m, b, 0, e]
      simp only [ravel_cons, ravel_nil, List.prod_cons, List.prod_nil]
      ring
    · rw [marks_get (view_shape _ _)]
      apply if_congr _ rfl rfl
      apply exists_congr
      intro k
      apply and_congr_right
      intro hk
      rw [hflat k hk]

-- The fused mask takes the tokens in the order of the sequences.
omit [LinearOrder R] [IsStrictOrderedRing R] in
theorem fused_sparsity_spec (self : A2aSparseMLP R E H I) {router_logits : Tensor R}
    {metadata : Tensor Nat} {B : Nat} (hlogits : router_logits.shape = [B, S, E])
    (hshape : metadata.shape = [1, B * self.dispatch_devices, S, self.num_experts_per_tok])
    (hacc : split_seq S ∨ split_bd (B * self.dispatch_devices)) :
    let BD := B * self.dispatch_devices
    ∃ sparsity, self.fused_sparsity router_logits metadata (dims BD S).1 (dims BD S).2 =
        some sparsity ∧
      sparsity.shape = [(dims BD S).1, (dims BD S).2, 1, E] ∧
      ∀ a b e, a < (dims BD S).1 → b < (dims BD S).2 → e < E → sparsity.get [a, b, 0, e] =
        if ∃ b' < BD, ∃ s < S, ∃ k < self.num_experts_per_tok,
          (b' * S + s) / M = a * (dims BD S).2 + b ∧ metadata.get [0, b', s, k] = e
        then 1 else 0 := by
  intro BD
  have hM := M_pos
  have htopk : ((router_logits.repeats [self.dispatch_devices, 1, 1]).unsqueeze 0).shape =
      [1, BD, S, E] := by
    unfold repeats unsqueeze
    rw [hlogits]
    simp [BD, Nat.mul_comm]
  obtain ⟨mapping, reduced, hremap, hreduced, hget⟩ :=
    moe_expert_token_remap_spec _ metadata htopk hM
  have hlast : last metadata.shape = self.num_experts_per_tok := by
    rw [hshape]
    rfl
  have hgroups : (BD * S + M - 1) / M = (dims BD S).1 * (dims BD S).2 := by
    have hceil : ∀ n, (n * M + M - 1) / M = n := by
      intro n
      rw [Nat.add_sub_assoc hM, Nat.add_comm, Nat.add_mul_div_right _ _ hM,
        Nat.div_eq_of_lt (by omega), Nat.zero_add]
    rcases split_cases hacc with ⟨-, q, hq, hdims⟩ | ⟨-, q, hq, hdims⟩
    · rw [hdims]
      rw [hq, ← Nat.mul_assoc]
      exact hceil _
    · rw [hdims]
      change (B * self.dispatch_devices * S + M - 1) / M = q * S
      rw [hq, Nat.mul_right_comm]
      exact hceil _
  refine ⟨reduced.view [(dims BD S).1, (dims BD S).2, 1, E], ?_, rfl, fun a b e ha hb he => ?_⟩
  · unfold fused_sparsity
    dsimp only
    rw [hremap]
    rfl
  · rw [hgroups] at hreduced
    refine (view_get [0, 0, a * (dims BD S).2 + b, e] hreduced ?_ ?_).trans ?_
    · simp [group_lt ha hb, he]
    · simp only [ravel_cons, ravel_nil, List.prod_cons, List.prod_nil]
      ring
    · rw [hget, hlast]

end Masks

end A2aSparseMLP

end TTXla.TTTorch

import TTXla.Lib.Tensor

-- The CPU definitions of the operations of a mixture of experts.
namespace TTXla.TTTorch

open Tensor

variable {R : Type} [CommRing R] [LinearOrder R]

-- An expert is computed where its mask is set; the other blocks stay zero.
def sparse_matmul (input_tensor_a input_tensor_b sparsity : Tensor R)
    (is_input_a_sparse is_input_b_sparse : Bool) : Option (Tensor R) :=
  match is_input_a_sparse, is_input_b_sparse, input_tensor_a.shape, input_tensor_b.shape with
  | true, true, [_, _, M, K], [_, E, _, N] => some {
      shape := [1, E, M, N]
      get := fun is => match is with
        | [_, e, m, n] =>
            if 0 < sparsity.get [0, 0, 0, e] then
              ∑ k ∈ Finset.range K,
                input_tensor_a.get [0, e, m, k] * input_tensor_b.get [0, e, k, n]
            else 0
        | _ => 0 }
  | false, true, [A, B, M, K], [_, E, _, N] => some {
      shape := [A, B, 1, E, M, N]
      get := fun is => match is with
        | [a, b, _, e, m, n] =>
            if ∃ a < A, ∃ b < B, sparsity.get [a, b, 0, e] ≠ 0 then
              (∑ k ∈ Finset.range K,
                input_tensor_a.get [a, b, m, k] * input_tensor_b.get [0, e, k, n]) *
                sparsity.get [a, b, 0, e]
            else 0
        | _ => 0 }
  | true, false, [A, _, M, K], [_, E, _, N] => some {
      shape := [A, E, M, N]
      get := fun is => match is with
        | [a, e, m, n] =>
            if ∃ a < A, sparsity.get [0, 0, a, e] ≠ 0 then
              (∑ k ∈ Finset.range K,
                input_tensor_a.get [a, e, m, k] * input_tensor_b.get [0, e, k, n]) *
                sparsity.get [0, 0, a, e]
            else 0
        | _ => 0 }
  | _, _, _, _ => none

-- A block that is not computed is one whose mask is zero.
theorem sparse_matmul_dense_sparse {a b : Tensor R} (sparsity : Tensor R) {A B M K L E N : Nat}
    (ha : a.shape = [A, B, M, K]) (hb : b.shape = [1, E, L, N]) :
    ∃ t, sparse_matmul a b sparsity false true = some t ∧ t.shape = [A, B, 1, E, M, N] ∧
      ∀ i < A, ∀ j < B, ∀ e m n, t.get [i, j, 0, e, m, n] =
        (∑ k ∈ Finset.range K, a.get [i, j, m, k] * b.get [0, e, k, n]) *
          sparsity.get [i, j, 0, e] := by
  unfold sparse_matmul
  rw [ha, hb]
  refine ⟨_, rfl, rfl, fun i hi j hj e m n => ?_⟩
  dsimp only
  split
  · rfl
  · rename_i hzero
    rw [not_not.mp fun hne => hzero ⟨i, hi, j, hj, hne⟩, mul_zero]

theorem sparse_matmul_sparse_dense (a b sparsity : Tensor R) {A D M K L E N : Nat}
    (ha : a.shape = [A, D, M, K]) (hb : b.shape = [1, E, L, N]) :
    ∃ t, sparse_matmul a b sparsity true false = some t ∧ t.shape = [A, E, M, N] ∧
      ∀ i < A, ∀ e m n, t.get [i, e, m, n] =
        (∑ k ∈ Finset.range K, a.get [i, e, m, k] * b.get [0, e, k, n]) *
          sparsity.get [0, 0, i, e] := by
  unfold sparse_matmul
  rw [ha, hb]
  refine ⟨_, rfl, rfl, fun i hi e m n => ?_⟩
  dsimp only
  split
  · rfl
  · rename_i hzero
    rw [not_not.mp fun hne => hzero ⟨i, hi, hne⟩, mul_zero]

-- Dispatch repeats the tokens for each device.
def all_to_all_dispatch (input_tensor : Tensor R) (expert_indices : Tensor Nat)
    (num_devices : Nat) : Tensor R × Tensor Nat :=
  let x := input_tensor.permute [1, 0, 2, 3]
  let m := expert_indices.permute [1, 0, 2, 3]
  if 1 < num_devices then
    (x.repeats [1, num_devices, 1, 1], m.repeats [1, num_devices, 1, 1])
  else (x, m)

-- Each token comes once for each device.
omit [CommRing R] [LinearOrder R] in
theorem repeats_get {α : Type} {t : Tensor α} {B S D n : Nat} (hshape : t.shape = [B, 1, S, n])
    (hD : 0 < D) :
    let u := if 1 < D then (t.permute [1, 0, 2, 3]).repeats [1, D, 1, 1]
      else t.permute [1, 0, 2, 3]
    u.shape = [1, B * D, S, n] ∧
      ∀ b < B * D, ∀ s < S, ∀ j < n, u.get [0, b, s, j] = t.get [b % B, 0, s, j] := by
  have hperm : (t.permute [1, 0, 2, 3]).shape = [1, B, S, n] := by
    unfold permute
    rw [hshape]
    rfl
  dsimp only
  split
  · refine ⟨?_, fun b _ s hs j hj => ?_⟩
    · unfold repeats
      rw [hperm]
      simp [Nat.mul_comm]
    · unfold repeats
      rw [hperm]
      change t.get [b % B, 0 % 1, s % S, j % n] = _
      rw [Nat.mod_eq_of_lt hs, Nat.mod_eq_of_lt hj]
  · obtain rfl : D = 1 := by omega
    refine ⟨by rw [hperm, Nat.mul_one], fun b hb s _ j _ => ?_⟩
    rw [Nat.mul_one] at hb
    rw [Nat.mod_eq_of_lt hb]
    rfl

omit [CommRing R] [LinearOrder R] in
theorem all_to_all_dispatch_spec {input_tensor : Tensor R} {expert_indices : Tensor Nat}
    {B S H K D : Nat} (hx : input_tensor.shape = [B, 1, S, H])
    (hm : expert_indices.shape = [B, 1, S, K]) (hD : 0 < D) :
    ∃ dispatched metadata, all_to_all_dispatch input_tensor expert_indices D =
        (dispatched, metadata) ∧
      dispatched.shape = [1, B * D, S, H] ∧ metadata.shape = [1, B * D, S, K] ∧
      (∀ b < B * D, ∀ s < S, ∀ j < H,
        dispatched.get [0, b, s, j] = input_tensor.get [b % B, 0, s, j]) ∧
      ∀ b < B * D, ∀ s < S, ∀ k < K,
        metadata.get [0, b, s, k] = expert_indices.get [b % B, 0, s, k] := by
  obtain ⟨hxs, hxget⟩ := repeats_get hx hD
  obtain ⟨hms, hmget⟩ := repeats_get hm hD
  refine ⟨_, _, ?_, hxs, hms, hxget, hmget⟩
  unfold all_to_all_dispatch
  dsimp only
  split <;> rfl

-- Combine takes the outputs of the selected experts, for the first repetition of each token.
def all_to_all_combine (input_tensor : Tensor R) (expert_metadata : Tensor Nat)
    (num_devices num_experts_per_tok output_shard_dim : Nat) : Option (Tensor R) :=
  let K := num_experts_per_tok
  let metadata_indices := expert_metadata.select 0
  -- `BD // num_devices` raises
  if num_devices = 0 then none
  else match output_shard_dim, input_tensor.shape with
  | 1, [E_local, BD, S, H] => some {
      shape := [K, BD / num_devices, S, H]
      get := fun is => match is with
        | [k, b, s, h] =>
            let expert_id := metadata_indices.get [b, s, k]
            if expert_id < E_local then input_tensor.get [expert_id, b, s, h] else 0
        | _ => 0 }
  | 2, [E_local, S, BD, H] => some {
      shape := [K, S, BD / num_devices, H]
      get := fun is => match is with
        | [k, s, b, h] =>
            let expert_id := metadata_indices.get [b, s, k]
            if expert_id < E_local then input_tensor.get [expert_id, s, b, h] else 0
        | _ => 0 }
  | _, _ => none

omit [LinearOrder R] in
theorem all_to_all_combine_spec {input_tensor : Tensor R} (expert_metadata : Tensor Nat)
    {E BD S H D : Nat} (K : Nat) (hD : 0 < D) (hshape : input_tensor.shape = [E, BD, S, H]) :
    ∃ t, all_to_all_combine input_tensor expert_metadata D K 1 = some t ∧
      t.shape = [K, BD / D, S, H] ∧
      ∀ k b s h, expert_metadata.get [0, b, s, k] < E → t.get [k, b, s, h] =
        input_tensor.get [expert_metadata.get [0, b, s, k], b, s, h] := by
  unfold all_to_all_combine
  rw [if_neg (by omega), hshape]
  refine ⟨_, rfl, rfl, fun k b s h hlt => ?_⟩
  exact if_pos hlt

-- The layout for a single position.
omit [LinearOrder R] in
theorem all_to_all_combine_decode_spec {input_tensor : Tensor R} (expert_metadata : Tensor Nat)
    {E BD S H D : Nat} (K : Nat) (hD : 0 < D) (hshape : input_tensor.shape = [E, S, BD, H]) :
    ∃ t, all_to_all_combine input_tensor expert_metadata D K 2 = some t ∧
      t.shape = [K, S, BD / D, H] ∧
      ∀ k s b h, expert_metadata.get [0, b, s, k] < E → t.get [k, s, b, h] =
        input_tensor.get [expert_metadata.get [0, b, s, k], s, b, h] := by
  unfold all_to_all_combine
  rw [if_neg (by omega), hshape]
  refine ⟨_, rfl, rfl, fun k s b h hlt => ?_⟩
  exact if_pos hlt

-- The iterations `(d, b, s, k)` of the loops over the tokens and their experts.
def token_experts (D B S K : Nat) : List (Nat × Nat × Nat × Nat) :=
  (List.range D).flatMap fun d => (List.range B).flatMap fun b => (List.range S).flatMap fun s =>
    (List.range K).map fun k => (d, b, s, k)

-- The body of the loops: the routing weight of an expert, and its mark in the group of the token.
def remap_token (topk_tensor : Tensor R) (expert_metadata : Tensor Nat)
    (S reduction_size reduced_seq : Nat) (st : Tensor R × Tensor R) (i : Nat × Nat × Nat × Nat) :
    Tensor R × Tensor R :=
  let (mapping, reduced) := st
  let (d, b, s, k) := i
  let global_expert := expert_metadata.get [d, b, s, k]
  let chunk_idx := (b * S + s) / reduction_size
  (mapping.set [0, b, s, global_expert] (topk_tensor.get [d, b, s, global_expert]),
    if chunk_idx < reduced_seq then reduced.set [0, 0, chunk_idx, global_expert] 1 else reduced)

-- The routing weights of each token, and for each group of consecutive tokens the experts that
-- one of them selects.
def moe_expert_token_remap (topk_tensor : Tensor R) (expert_metadata : Tensor Nat)
    (reduction_size : Nat) : Option (Tensor R × Tensor R) :=
  match topk_tensor.shape with
  | [D, B, S, E] =>
      let K := last expert_metadata.shape
      let reduced_seq := (B * S + reduction_size - 1) / reduction_size
      some ((token_experts D B S K).foldl
        (remap_token topk_tensor expert_metadata S reduction_size reduced_seq)
        (zeros [1, B, S, E], zeros [1, 1, reduced_seq, E]))
  | _ => none

theorem mem_token_experts {D B S K d b s k : Nat} :
    (d, b, s, k) ∈ token_experts D B S K ↔ d < D ∧ b < B ∧ s < S ∧ k < K := by
  simp [token_experts]

omit [LinearOrder R] in
theorem remap_tokens_get (topk_tensor : Tensor R) (expert_metadata : Tensor Nat) {S r n : Nat}
    (l : List (Nat × Nat × Nat × Nat)) (st : Tensor R × Tensor R) (c e : Nat) :
    let st' := l.foldl (remap_token topk_tensor expert_metadata S r n) st
    st'.2.shape = st.2.shape ∧ st'.2.get [0, 0, c, e] =
      if ∃ i ∈ l, (i.2.1 * S + i.2.2.1) / r = c ∧ c < n ∧
        expert_metadata.get [i.1, i.2.1, i.2.2.1, i.2.2.2] = e then 1
      else st.2.get [0, 0, c, e] := by
  induction l generalizing st with
  | nil => simp
  | cons i l ih =>
      obtain ⟨hshape, hget⟩ := ih (remap_token topk_tensor expert_metadata S r n st i)
      rw [List.foldl_cons]
      refine ⟨hshape.trans ?_, hget.trans ?_⟩
      · unfold remap_token
        dsimp only
        split <;> rfl
      · simp only [List.mem_cons, exists_eq_or_imp]
        by_cases hl : ∃ i ∈ l, (i.2.1 * S + i.2.2.1) / r = c ∧ c < n ∧
            expert_metadata.get [i.1, i.2.1, i.2.2.1, i.2.2.2] = e
        · rw [if_pos hl, if_pos (Or.inr hl)]
        · rw [if_neg hl]
          simp only [hl, or_false]
          unfold remap_token
          dsimp only
          by_cases hn : (i.2.1 * S + i.2.2.1) / r < n
          · rw [if_pos hn]
            unfold Tensor.set
            dsimp only
            by_cases hkey : [0, 0, c, e] = [0, 0, (i.2.1 * S + i.2.2.1) / r,
                expert_metadata.get [i.1, i.2.1, i.2.2.1, i.2.2.2]]
            · rw [hkey, Function.update_self, if_pos]
              simp only [List.cons.injEq, and_true, true_and] at hkey
              exact ⟨hkey.1.symm, hkey.1 ▸ hn, hkey.2.symm⟩
            · rw [Function.update_of_ne hkey, if_neg]
              intro h
              exact hkey (by rw [h.1, h.2.2])
          · rw [if_neg hn, if_neg]
            intro h
            exact hn (h.1 ▸ h.2.1)

-- A group has the experts that one of its tokens selects.
omit [LinearOrder R] in
theorem moe_expert_token_remap_spec (topk_tensor : Tensor R) (expert_metadata : Tensor Nat)
    {B S E r : Nat} (hshape : topk_tensor.shape = [1, B, S, E]) (hr : 0 < r) :
    ∃ mapping reduced, moe_expert_token_remap topk_tensor expert_metadata r =
      some (mapping, reduced) ∧ reduced.shape = [1, 1, (B * S + r - 1) / r, E] ∧
      ∀ c e, reduced.get [0, 0, c, e] =
        if ∃ b < B, ∃ s < S, ∃ k < last expert_metadata.shape,
          (b * S + s) / r = c ∧ expert_metadata.get [0, b, s, k] = e then 1 else 0 := by
  have hchunk : ∀ b < B, ∀ s < S, (b * S + s) / r < (B * S + r - 1) / r := by
    intro b hb s hs
    have hlt : b * S + s < B * S := group_lt hb hs
    have hmul := Nat.div_mul_le_self (b * S + s) r
    have hsucc : (b * S + s) / r + 1 ≤ (B * S + r - 1) / r := by
      rw [Nat.le_div_iff_mul_le hr, Nat.succ_mul]
      omega
    omega
  unfold moe_expert_token_remap
  rw [hshape]
  refine ⟨_, _, rfl, ?_, fun c e => ?_⟩
  · exact (remap_tokens_get topk_tensor expert_metadata _ _ 0 0).1
  · refine (remap_tokens_get topk_tensor expert_metadata _ _ c e).2.trans ?_
    apply if_congr _ rfl rfl
    constructor
    · intro h
      obtain ⟨⟨d, b, s, k⟩, hmem, hc, -, he⟩ := h
      obtain ⟨hd, hb, hs, hk⟩ := mem_token_experts.mp hmem
      obtain rfl : d = 0 := by omega
      exact ⟨b, hb, s, hs, k, hk, hc, he⟩
    · intro h
      obtain ⟨b, hb, s, hs, k, hk, hc, he⟩ := h
      exact ⟨(0, b, s, k), mem_token_experts.mpr ⟨Nat.one_pos, hb, hs, hk⟩, hc,
        hc ▸ hchunk b hb s hs, he⟩

end TTXla.TTTorch

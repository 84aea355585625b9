import TTXla.TTTorch.GptOssExperts
import TTXla.TTTorch.SparseMLP.Paths

-- The two branches of the forward function compute the same weighted sums.
namespace TTXla.TTTorch

open Excepts Tensor

variable {R : Type} [CommRing R] [LinearOrder R] {E H I : Nat}

section Ops

variable {α : Type}

theorem sum_map_range {β : Type} [AddCommMonoid β] (f : Nat → β) (n : Nat) :
    ((List.range n).map f).sum = ∑ i ∈ Finset.range n, f i := rfl

theorem sum_map_filter {β : Type} [AddCommMonoid β] {p : Nat → Bool} {f : Nat → β} {l : List Nat}
    (h : ∀ a ∈ l, p a = false → f a = 0) : ((l.filter p).map f).sum = (l.map f).sum := by
  induction l with
  | nil => rfl
  | cons a l ih =>
      have hrest := ih fun b hb => h b (List.mem_cons_of_mem _ hb)
      rw [List.map_cons, List.sum_cons]
      cases hp : p a with
      | true => rw [List.filter_cons_of_pos hp, List.map_cons, List.sum_cons, hrest]
      | false =>
          rw [List.filter_cons_of_neg (by simp [hp]), hrest, h a List.mem_cons_self hp, zero_add]

theorem view_infer_of_zero {t : Tensor α} {before after : List Nat}
    (hsize : (before ++ after).prod = 0) (ht : t.shape.prod = 0) :
    view_infer t before after = .error .ambiguous_shape := by
  unfold view_infer
  dsimp only
  rw [if_pos hsize, if_pos ht]

theorem view_infer_of_mul {t : Tensor α} {before after : List Nat} {n : Nat}
    (hsize : 0 < (before ++ after).prod) (ht : t.shape.prod = n * (before ++ after).prod) :
    view_infer t before after = .ok (t.view (before ++ n :: after)) := by
  unfold view_infer
  dsimp only
  rw [if_neg (by omega), ht, Nat.mul_mod_left, if_pos rfl, Nat.mul_div_cancel _ hsize]

omit [LinearOrder R] in
theorem linear_spec {t u bias : Tensor R} {n a c : Nat} (ht : t.shape = [n, a])
    (hu : u.shape = [a, c]) (hbias : bias.shape = [c]) :
    (matmul t u + bias).shape = [n, c] ∧ ∀ i j, i < n → j < c →
      (matmul t u + bias).get [i, j] =
        (∑ k ∈ Finset.range a, t.get [i, k] * u.get [k, j]) + bias.get [j] := by
  have hmatmul : (matmul t u).shape = [n, c] := by
    unfold matmul
    rw [ht, hu]
    rfl
  constructor
  · change bshape (matmul t u).shape bias.shape = _
    rw [hmatmul, hbias]
    change [if n = 1 then 1 else n, if c = 1 then c else c] = _
    rw [bdim_one, ite_self]
  · intro i j hi hj
    refine (add_get (matmul t u) bias [i] [j] (by simp [hmatmul, hi, hj])
      (by simp [hbias, hj])).trans ?_
    congr 1
    change ∑ k ∈ Finset.range (last t.shape), t.bget [i, k] * u.bget [k, j] = _
    rw [ht]
    refine Finset.sum_congr rfl fun k hk => ?_
    have hk : k < a := Finset.mem_range.mp hk
    rw [bget_eq t (by simp [ht, hi, hk]), bget_eq u (by simp [hu, hk, hj])]

-- A matrix and a bias for each index of the first dimension.
omit [LinearOrder R] in
theorem batched_linear_spec {t u bias : Tensor R} {n m a c : Nat} (ht : t.shape = [n, m, a])
    (hu : u.shape = [n, a, c]) (hbias : bias.shape = [n, c]) :
    (matmul t u + bias.unsqueeze 1).shape = [n, m, c] ∧ ∀ e i j, e < n → i < m → j < c →
      (matmul t u + bias.unsqueeze 1).get [e, i, j] =
        (∑ k ∈ Finset.range a, t.get [e, i, k] * u.get [e, k, j]) + bias.get [e, j] := by
  have hmatmul : (matmul t u).shape = [n, m, c] := by
    unfold matmul
    rw [ht, hu]
    change [if n = 1 then n else n, m, c] = _
    rw [ite_self]
  have hbias_shape : (bias.unsqueeze 1).shape = [n, 1, c] := by
    rw [unsqueeze_shape, hbias]
    rfl
  constructor
  · change bshape (matmul t u).shape (bias.unsqueeze 1).shape = _
    rw [hmatmul, hbias_shape]
    change [if n = 1 then n else n, if m = 1 then 1 else m, if c = 1 then c else c] = _
    rw [bdim_one, ite_self, ite_self]
  · intro e i j he hi hj
    change (matmul t u).bget [e, i, j] + (bias.unsqueeze 1).bget [e, i, j] = _
    congr 1
    · rw [bget_eq _ (by simp [hmatmul, he, hi, hj])]
      change ∑ k ∈ Finset.range (last t.shape), t.bget [e, i, k] * u.bget [e, k, j] = _
      rw [ht]
      refine Finset.sum_congr rfl fun k hk => ?_
      have hk : k < a := Finset.mem_range.mp hk
      rw [bget_eq t (by simp [ht, he, hi, hk]), bget_eq u (by simp [hu, he, hk, hj])]
    · unfold bget
      rw [hbias_shape]
      change bias.get [if n = 1 then 0 else e, if c = 1 then 0 else j] = _
      rw [bcast_of_lt he, bcast_of_lt hj]

-- A column of weights.
omit [LinearOrder R] in
theorem scaled_rows_spec {t weights : Tensor R} {n c : Nat} (ht : t.shape = [n, c])
    (hweights : weights.shape = [n, 1]) :
    (t * weights).shape = [n, c] ∧ ∀ i j, i < n → j < c →
      (t * weights).get [i, j] = t.get [i, j] * weights.get [i, 0] := by
  constructor
  · change bshape t.shape weights.shape = _
    rw [ht, hweights]
    change [if n = 1 then n else n, if c = 1 then 1 else c] = _
    rw [bdim_one, ite_self]
  · intro i j hi hj
    change t.bget [i, j] * weights.bget [i, j] = _
    rw [bget_eq t (by simp [ht, hi, hj])]
    unfold bget
    rw [hweights]
    change _ * weights.get [if n = 1 then 0 else i, 0] = _
    rw [bcast_of_lt hi]

end Ops

namespace GptOssExperts

variable (self : GptOssExperts R E H I)

theorem activated_spec (ds : List Nat) {gate_up : Tensor R}
    (hshape : gate_up.shape = ds ++ [I * 2]) :
    (self.activated gate_up).shape = ds ++ [I] ∧ ∀ is i, InBounds is ds → i < I →
      (self.activated gate_up).get (is ++ [i]) =
        self.act.scalar (gate_up.get (is ++ [2 * i])) (gate_up.get (is ++ [1 + 2 * i])) := by
  have hslice : ∀ start, (gate_up.slice start 2 I).shape = ds ++ [I] := by
    intro start
    unfold slice
    rw [hshape, setLast_append]
  have hget : ∀ start is i, (gate_up.slice start 2 I).get (is ++ [i]) =
      gate_up.get (is ++ [start + 2 * i]) := by
    intro start is i
    unfold slice
    dsimp only
    rw [setLast_append, last_append]
  unfold activated
  refine ⟨self.act.apply_shape (hslice 0) (hslice 1), fun is i his hi => ?_⟩
  have hin : InBounds (is ++ [i]) (ds ++ [I]) := List.rel_append his (by simp [hi])
  rw [self.act.apply_get (hslice 0) (hslice 1) hin, hget, hget, Nat.zero_add]

variable {hidden_states routing_weights : Tensor R} {T : Nat}

-- What an expert adds to a token.
def contribution (hidden_states routing_weights : Tensor R) (e t h : Nat) : R :=
  self.experts.output self.act e (fun j => hidden_states.get [t, j]) h * routing_weights.get [t, e]

theorem weighted_output_spec (routing_weights : Tensor R)
    (hhidden : hidden_states.shape = [T, H]) (e : Nat)
    (token_idx : List Nat) :
    (self.weighted_output hidden_states routing_weights e token_idx).shape =
        [token_idx.length, H] ∧
      ∀ i h, i < token_idx.length → h < H →
        (self.weighted_output hidden_states routing_weights e token_idx).get [i, h] =
          self.contribution hidden_states routing_weights e (token_idx.getD i 0) h := by
  have hcurrent : (gather_rows hidden_states token_idx).shape = [token_idx.length, H] := by
    unfold gather_rows
    rw [hhidden]
    rfl
  have hup : (self.experts.gate_up_proj.select e).shape = [H, I * 2] := by
    unfold select
    rw [self.experts.gate_up_proj_shape]
    rfl
  have hup_bias : (self.experts.gate_up_proj_bias.select e).shape = [I * 2] := by
    unfold select
    rw [self.experts.gate_up_proj_bias_shape]
    rfl
  have hdown : (self.experts.down_proj.select e).shape = [I, H] := by
    unfold select
    rw [self.experts.down_proj_shape]
    rfl
  have hdown_bias : (self.experts.down_proj_bias.select e).shape = [H] := by
    unfold select
    rw [self.experts.down_proj_bias_shape]
    rfl
  obtain ⟨hgate_shape, hgate⟩ := linear_spec hcurrent hup hup_bias
  obtain ⟨hact_shape, hact⟩ := self.activated_spec [token_idx.length] hgate_shape
  obtain ⟨hout_shape, hout⟩ := linear_spec hact_shape hdown hdown_bias
  have hgate_up : ∀ i < token_idx.length, ∀ m < I * 2,
      (matmul (gather_rows hidden_states token_idx) (self.experts.gate_up_proj.select e) +
        self.experts.gate_up_proj_bias.select e).get [i, m] =
      self.experts.gate_up 1 e (fun j => hidden_states.get [token_idx.getD i 0, j]) m := by
    intro i hi m hm
    rw [hgate i m hi hm, Experts.gate_up, mul_one]
    rfl
  have hweights : (⟨[token_idx.length, 1], fun is => routing_weights.get
      [token_idx.getD (is.headD 0) 0, e]⟩ : Tensor R).shape = [token_idx.length, 1] := rfl
  obtain ⟨hshape, hget⟩ := scaled_rows_spec hout_shape hweights
  refine ⟨hshape, fun i h hi hh => (hget i h hi hh).trans ?_⟩
  rw [hout i h hi hh]
  unfold contribution Experts.output Experts.masked_output
  rw [mul_one]
  refine congrArg₂ (· * ·) (congrArg (· + _) (Finset.sum_congr rfl fun k hk => ?_)) rfl
  have hk : k < I := Finset.mem_range.mp hk
  refine congrArg (· * _) ((hact [i] k (by simp [hi]) hk).trans ?_)
  rw [← hgate_up i hi _ (by omega), ← hgate_up i hi _ (by omega)]
  rfl

section Mask

variable {router_indices : Tensor Nat} {K : Nat}

-- The mask of the experts, with one more for padding.
def expert_mask (router_indices : Tensor Nat) (E : Nat) : Tensor Nat :=
  (oneHot router_indices (E + 1)).permute [2, 1, 0]

theorem expert_mask_shape (hindices : router_indices.shape = [T, K]) :
    (expert_mask router_indices E).shape = [E + 1, K, T] := by
  unfold expert_mask permute oneHot
  rw [hindices]
  rfl

-- The tokens of an expert, once for each time that they selected it.
theorem count_where_columns {m : Tensor Nat} (hm : m.shape = [K, T]) {t : Nat} (ht : t < T) :
    (where_columns m).count t = ∑ k ∈ Finset.range K, if m.get [k, t] ≠ 0 then 1 else 0 := by
  have hcolumn : ∀ k, ((List.range T).filter fun j => m.get [k, j] ≠ 0).count t =
      if m.get [k, t] ≠ 0 then 1 else 0 := by
    intro k
    have hnodup : ((List.range T).filter fun j => m.get [k, j] ≠ 0).Nodup :=
      List.nodup_range.filter _
    by_cases hget : m.get [k, t] ≠ 0
    · rw [if_pos hget]
      exact List.count_eq_one_of_mem hnodup
        (List.mem_filter.mpr ⟨List.mem_range.mpr ht, decide_eq_true hget⟩)
    · rw [if_neg hget]
      refine List.count_eq_zero_of_not_mem fun hmem => hget ?_
      exact of_decide_eq_true (List.mem_filter.mp hmem).2
  have hrows : m.shape.headD 0 = K := by rw [hm]; rfl
  have hcolumns : last m.shape = T := by rw [hm]; rfl
  unfold where_columns
  rw [hrows, hcolumns, List.count_flatMap, ← sum_map_range]
  exact congrArg List.sum (List.map_congr_left fun k _ => hcolumn k)

-- With different experts for a token, an expert has it once or not at all.
theorem count_expert (hindices : router_indices.shape = [T, K]) {t : Nat} (ht : t < T)
    (e : Nat) (hdistinct : ∀ k < K, ∀ k' < K,
      router_indices.get [t, k] = router_indices.get [t, k'] → k = k') :
    (where_columns ((expert_mask router_indices E).select e)).count t =
      if ∃ k < K, router_indices.get [t, k] = e then 1 else 0 := by
  have hselect : ((expert_mask router_indices E).select e).shape = [K, T] := by
    unfold select
    rw [expert_mask_shape hindices]
    rfl
  have hget : ∀ k, ((expert_mask router_indices E).select e).get [k, t] =
      if router_indices.get [t, k] = e then 1 else 0 := fun _ => rfl
  rw [count_where_columns hselect ht]
  by_cases hselected : ∃ k < K, router_indices.get [t, k] = e
  · obtain ⟨k, hk, rfl⟩ := hselected
    rw [if_pos ⟨k, hk, rfl⟩, Finset.sum_eq_single k]
    · rw [hget, if_pos rfl]
      rfl
    · intro k' hk' hne
      rw [hget, if_neg fun heq => hne (hdistinct k' (Finset.mem_range.mp hk') k hk heq)]
      rfl
    · intro hnot
      exact absurd (Finset.mem_range.mpr hk) hnot
  · rw [if_neg hselected]
    refine Finset.sum_eq_zero fun k hk => ?_
    rw [hget, if_neg fun heq => hselected ⟨k, Finset.mem_range.mp hk, heq⟩]
    rfl

-- An expert that is not hit has no tokens.
theorem hit_of_mem {e t : Nat} (hindices : router_indices.shape = [T, K])
    (ht : t ∈ where_columns ((expert_mask router_indices E).select e)) (he : e ≤ E) :
    e ∈ nonzero (((expert_mask router_indices E).sum 2).sum 1) := by
  have hshape := expert_mask_shape (E := E) hindices
  have hselect : ((expert_mask router_indices E).select e).shape = [K, T] := by
    unfold select
    rw [hshape]
    rfl
  obtain ⟨k, hk, ht⟩ := List.mem_flatMap.mp ht
  rw [hselect] at hk ht
  obtain ⟨ht, hget⟩ := List.mem_filter.mp ht
  have hk : k < K := List.mem_range.mp hk
  have ht : t < T := List.mem_range.mp ht
  have hone : (expert_mask router_indices E).get [e, k, t] ≠ 0 := of_decide_eq_true hget
  have hsum : (((expert_mask router_indices E).sum 2).sum 1).get [e] =
      ∑ k ∈ Finset.range K, ∑ t ∈ Finset.range T, (expert_mask router_indices E).get [e, k, t] := by
    change ∑ k ∈ Finset.range (((expert_mask router_indices E).sum 2).shape.getD 1 0),
      ∑ t ∈ Finset.range ((expert_mask router_indices E).shape.getD 2 0), _ = _
    rw [sum_shape, hshape]
    rfl
  have hrange : (((expert_mask router_indices E).sum 2).sum 1).shape = [E + 1] := by
    rw [sum_shape, sum_shape, hshape]
    rfl
  unfold nonzero
  rw [hrange]
  refine List.mem_filter.mpr ⟨List.mem_range.mpr (Nat.lt_succ_of_le he), decide_eq_true ?_⟩
  rw [hsum]
  intro hzero
  rw [Finset.sum_eq_zero_iff] at hzero
  have hrow := hzero k (Finset.mem_range.mpr hk)
  rw [Finset.sum_eq_zero_iff] at hrow
  exact hone (hrow t (Finset.mem_range.mpr ht))

end Mask

-- The rows of a source that are added to a row.
omit [LinearOrder R] in
theorem sum_rows {rows : List Nat} {t : Nat} {f : Nat → R} {c : R}
    (hf : ∀ i < rows.length, rows.getD i 0 = t → f i = c) :
    (∑ i ∈ Finset.range rows.length, if rows.getD i 0 = t then f i else 0) = rows.count t • c := by
  induction rows generalizing f with
  | nil => simp
  | cons row rows ih =>
      have hrest := ih (f := fun i => f (i + 1)) fun i hi h =>
        hf (i + 1) (Nat.succ_lt_succ hi) h
      rw [List.length_cons, Finset.sum_range_succ']
      simp only [List.getD_cons_succ, List.getD_cons_zero]
      rw [hrest]
      by_cases hrow : row = t
      · rw [if_pos hrow, hf 0 (Nat.succ_pos _) hrow, hrow, List.count_cons_self, succ_nsmul]
      · rw [if_neg hrow, add_zero, List.count_cons_of_ne hrow]

section Cpu

variable {router_indices : Tensor Nat} {K : Nat}

-- A round adds the contribution of its expert to the tokens that selected it.
theorem add_expert_spec (routing_weights : Tensor R) (router_indices : Tensor Nat)
    (hhidden : hidden_states.shape = [T, H]) {next_states : Tensor R}
    (hnext : next_states.shape = [T, H]) (e : Nat) :
    (self.add_expert hidden_states routing_weights (expert_mask router_indices E) E
        next_states e).shape = [T, H] ∧
      ∀ t h, t < T → h < H → (self.add_expert hidden_states routing_weights
        (expert_mask router_indices E) E next_states e).get [t, h] =
          next_states.get [t, h] + if e = E then 0 else
            (where_columns ((expert_mask router_indices E).select e)).count t •
              self.contribution hidden_states routing_weights e t h := by
  unfold add_expert
  split
  · exact ⟨hnext, fun t h _ _ => (add_zero _).symm⟩
  · refine ⟨hnext, fun t h ht hh => ?_⟩
    have houtput := (self.weighted_output_spec routing_weights hhidden e
      (where_columns ((expert_mask router_indices E).select e))).2
    refine congrArg (next_states.get [t, h] + ·) (sum_rows fun i hi hrow => ?_)
    have hrow : (where_columns ((expert_mask router_indices E).select e)).getD i 0 = t := hrow
    exact (houtput i h hi hh).trans (by rw [hrow])

theorem add_experts_spec (hhidden : hidden_states.shape = [T, H]) (experts : List Nat)
    {next_states : Tensor R} (hnext : next_states.shape = [T, H]) :
    (experts.foldl (self.add_expert hidden_states routing_weights (expert_mask router_indices E) E)
        next_states).shape = [T, H] ∧
      ∀ t h, t < T → h < H →
        (experts.foldl (self.add_expert hidden_states routing_weights
          (expert_mask router_indices E) E) next_states).get [t, h] =
          next_states.get [t, h] + (experts.map fun e => if e = E then 0 else
            (where_columns ((expert_mask router_indices E).select e)).count t •
              self.contribution hidden_states routing_weights e t h).sum := by
  induction experts generalizing next_states with
  | nil => exact ⟨hnext, fun t h _ _ => (add_zero _).symm⟩
  | cons e experts ih =>
      obtain ⟨hshape, hget⟩ := self.add_expert_spec routing_weights router_indices hhidden
        hnext e
      obtain ⟨hshape', hget'⟩ := ih hshape
      refine ⟨hshape', fun t h ht hh => ?_⟩
      rw [List.foldl_cons, hget' t h ht hh, hget t h ht hh, List.map_cons, List.sum_cons, add_assoc]

end Cpu

-- The selected experts of the tokens are different, and the other weights are zero.
structure Routed (router_indices : Tensor Nat) (routing_weights : Tensor R) (T E K : Nat) :
    Prop where
  indices_shape : router_indices.shape = [T, K]
  weights_shape : routing_weights.shape = [T, E]
  lt : ∀ t < T, ∀ k < K, router_indices.get [t, k] < E
  distinct : ∀ t < T, ∀ k < K, ∀ k' < K,
    router_indices.get [t, k] = router_indices.get [t, k'] → k = k'
  zero : ∀ t < T, ∀ e < E, (∀ k < K, router_indices.get [t, k] ≠ e) →
    routing_weights.get [t, e] = 0

-- The sum of the contributions of all experts.
def IsWeightedSum (rows routing_weights : Tensor R) (B S : Nat) (out : Tensor R) : Prop :=
  out.shape = [B, S, H] ∧ ∀ b s h, b < B → s < S → h < H → out.get [b, s, h] =
    ∑ e ∈ Finset.range E, self.contribution rows routing_weights e (b * S + s) h

section Cpu

variable {router_indices : Tensor Nat} {K : Nat}

omit [LinearOrder R] in
theorem Routed.one_hot_ok (h : Routed router_indices routing_weights T E K) :
    one_hot router_indices (E + 1) = .ok (oneHot router_indices (E + 1)) := by
  have hclasses : ∀ n < router_indices.shape.prod,
      router_indices.get (unravel router_indices.shape n) < E + 1 := by
    intro n hn
    rw [h.indices_shape] at hn ⊢
    have hn : n < T * K := by simpa using hn
    have hK : 0 < K := Nat.pos_of_ne_zero fun hK => by simp [hK] at hn
    have hlt := h.lt (n / K) (Nat.div_lt_of_lt_mul (by rwa [Nat.mul_comm])) (n % K)
      (Nat.mod_lt n hK)
    have hindex : unravel [T, K] n = [n / K, n % K] := by simp [unravel]
    rw [hindex]
    omega
  unfold one_hot
  rw [ensure_of hclasses]
  rfl

-- The rounds add up the contributions of all experts.
theorem add_experts_eq (hrouted : Routed router_indices routing_weights T E K)
    (hhidden : hidden_states.shape = [T, H]) {t h : Nat} (ht : t < T) (hh : h < H) :
    ((nonzero (((expert_mask router_indices E).sum 2).sum 1)).foldl
      (self.add_expert hidden_states routing_weights (expert_mask router_indices E) E)
        (zeros hidden_states.shape)).get [t, h] =
      ∑ e ∈ Finset.range E, self.contribution hidden_states routing_weights e t h := by
  have hindices := hrouted.indices_shape
  have hzeros : (zeros hidden_states.shape : Tensor R).shape = [T, H] := hhidden
  rw [(self.add_experts_spec hhidden _ hzeros).2 t h ht hh]
  have hrange : (((expert_mask router_indices E).sum 2).sum 1).shape.headD 0 = E + 1 := by
    rw [sum_shape, sum_shape, expert_mask_shape hindices]
    rfl
  have hhits : ∀ e ∈ List.range (E + 1),
      decide ((((expert_mask router_indices E).sum 2).sum 1).get [e] ≠ 0) = false →
      (if e = E then 0 else
        (where_columns ((expert_mask router_indices E).select e)).count t •
          self.contribution hidden_states routing_weights e t h) = 0 := by
    intro e he hhit
    split
    · rfl
    · rw [List.count_eq_zero_of_not_mem, zero_nsmul]
      intro hmem
      have hle : e ≤ E := Nat.le_of_lt_succ (List.mem_range.mp he)
      have hmem := (List.mem_filter.mp (hit_of_mem hindices hmem hle)).2
      rw [hhit] at hmem
      cases hmem
  change 0 + _ = _
  rw [zero_add, nonzero, hrange, sum_map_filter hhits, sum_map_range, Finset.sum_range_succ,
    if_pos rfl, add_zero]
  refine Finset.sum_congr rfl fun e he => ?_
  have he : e < E := Finset.mem_range.mp he
  rw [if_neg (by omega), count_expert hindices ht e (hrouted.distinct t ht)]
  by_cases hselected : ∃ k < K, router_indices.get [t, k] = e
  · rw [if_pos hselected, one_nsmul]
  · have hzero := hrouted.zero t ht e he fun k hk heq => hselected ⟨k, hk, heq⟩
    rw [if_neg hselected, zero_nsmul, contribution, hzero, mul_zero]

variable {B S : Nat}

-- The elements of the hidden states as rows, and what is left when there are none.
omit [CommRing R] [LinearOrder R] in
theorem view_rows (hprod : hidden_states.shape.prod = B * S * H) :
    view_infer hidden_states [] [H] =
      if H = 0 then .error .ambiguous_shape else .ok (hidden_states.view [B * S, H]) := by
  split
  · rename_i hH
    exact view_infer_of_zero (by simp [hH]) (by simp [hprod, hH])
  · exact view_infer_of_mul (by simp; omega) (by simp [hprod])

theorem experts_forward_cpu_spec (hrouted : Routed router_indices routing_weights (B * S) E K)
    (hhead : hidden_states.shape.headD 0 = B) (hprod : hidden_states.shape.prod = B * S * H) :
    if B = 0 ∨ H = 0 then
      self.experts_forward_cpu hidden_states router_indices routing_weights =
        .error .ambiguous_shape
    else ∃ out, self.experts_forward_cpu hidden_states router_indices routing_weights = .ok out ∧
      self.IsWeightedSum (hidden_states.view [B * S, H]) routing_weights B S out := by
  have hlast : last routing_weights.shape = E := by
    rw [hrouted.weights_shape]
    rfl
  by_cases hH : H = 0
  · rw [if_pos (.inr hH)]
    unfold experts_forward_cpu
    rw [view_rows hprod, if_pos hH]
    rfl
  · have hrows : (hidden_states.view [B * S, H]).shape = [B * S, H] := rfl
    have hcpu : ∃ next_states, self.experts_forward_cpu hidden_states router_indices
        routing_weights = view_infer next_states [B] [H] ∧ next_states.shape = [B * S, H] ∧
          ∀ t h, t < B * S → h < H → next_states.get [t, h] = ∑ e ∈ Finset.range E,
            self.contribution (hidden_states.view [B * S, H]) routing_weights e t h := by
      have hzeros : (zeros (hidden_states.view [B * S, H]).shape : Tensor R).shape =
        [B * S, H] := rfl
      refine ⟨_, ?_, (self.add_experts_spec hrows _ hzeros).1, fun t h ht hh =>
        self.add_experts_eq hrouted hrows ht hh⟩
      unfold experts_forward_cpu
      rw [view_rows hprod, if_neg hH, hlast, hhead]
      change (one_hot _ _ >>= _) = _
      rw [hrouted.one_hot_ok]
      rfl
    obtain ⟨next_states, hforward, hshape, hget⟩ := hcpu
    rw [hforward]
    by_cases hB : B = 0
    · rw [if_pos (.inl hB)]
      exact view_infer_of_zero (by simp [hB]) (by simp [hshape, hB])
    · rw [if_neg (by tauto)]
      have hview : view_infer next_states [B] [H] = .ok (next_states.view [B, S, H]) :=
        view_infer_of_mul (by simp; omega) (by rw [hshape]; simp; ring)
      refine ⟨_, hview, rfl, fun b s h hb hs hh => ?_⟩
      rw [← hget (b * S + s) h (group_lt hb hs) hh]
      refine view_get [b * S + s, h] hshape (by simp [group_lt hb hs, hh]) ?_
      simp only [ravel_cons, ravel_nil, List.prod_cons, List.prod_nil]
      ring

end Cpu

section Device

variable {B S : Nat}

-- The rows once for each expert.
omit [CommRing R] [LinearOrder R] in
theorem repeated_rows_get {rows : Tensor R} (hrows : rows.shape = [T, H]) {e t j : Nat}
    (he : e < E) (ht : t < T) (hj : j < H) :
    ((rows.repeats [E, 1]).view [E, T, H]).get [e, t, j] = rows.get [t, j] := by
  have hshape : (rows.repeats [E, 1]).shape = [E * T, H] := by
    unfold repeats
    rw [hrows]
    simp
  rw [view_get [e * T + t, j] hshape (by simp [group_lt he ht, hj])
    (by simp only [ravel_cons, ravel_nil, List.prod_cons, List.prod_nil]; ring)]
  unfold repeats
  rw [hrows]
  change rows.get [(e * T + t) % T, j % H] = _
  rw [Nat.mul_add_mod', Nat.mod_eq_of_lt ht, Nat.mod_eq_of_lt hj]

-- The outputs of all experts for all rows.
theorem all_outputs_spec {rows states : Tensor R} (hrows : states.shape = [E, T, H])
    (hget : ∀ e t j, e < E → t < T → j < H → states.get [e, t, j] = rows.get [t, j]) :
    let outputs := matmul (self.activated (matmul states self.experts.gate_up_proj +
      self.experts.gate_up_proj_bias.unsqueeze 1)) self.experts.down_proj +
        self.experts.down_proj_bias.unsqueeze 1
    outputs.shape = [E, T, H] ∧ ∀ e t h, e < E → t < T → h < H → outputs.get [e, t, h] =
      self.experts.output self.act e (fun j => rows.get [t, j]) h := by
  obtain ⟨hup_shape, hup⟩ := batched_linear_spec hrows self.experts.gate_up_proj_shape
    self.experts.gate_up_proj_bias_shape
  obtain ⟨hact_shape, hact⟩ := self.activated_spec [E, T] hup_shape
  obtain ⟨hout_shape, hout⟩ := batched_linear_spec hact_shape self.experts.down_proj_shape
    self.experts.down_proj_bias_shape
  refine ⟨hout_shape, fun e t h he ht hh => (hout e t h he ht hh).trans ?_⟩
  have hgate_up : ∀ m < I * 2, (matmul states self.experts.gate_up_proj +
      self.experts.gate_up_proj_bias.unsqueeze 1).get [e, t, m] =
        self.experts.gate_up 1 e (fun j => rows.get [t, j]) m := by
    intro m hm
    rw [hup e t m he ht hm, Experts.gate_up, mul_one]
    refine congrArg (· + _) (Finset.sum_congr rfl fun j hj => ?_)
    rw [hget e t j he ht (Finset.mem_range.mp hj)]
  unfold Experts.output Experts.masked_output
  rw [mul_one]
  refine congrArg (· + _) (Finset.sum_congr rfl fun k hk => ?_)
  have hk : k < I := Finset.mem_range.mp hk
  refine congrArg (· * _) ((hact [e, t] k (by simp [he, ht]) hk).trans ?_)
  rw [← hgate_up _ (by omega), ← hgate_up _ (by omega)]
  rfl

-- The weighted outputs, summed over the experts.
omit [LinearOrder R] in
theorem weighted_sum_get {outputs weights : Tensor R} (houtputs : outputs.shape = [E, B, S, H])
    (hweights : weights.shape = [E, B, S]) :
    ((outputs * weights.unsqueeze 3).sum 0).shape = [B, S, H] ∧
      ∀ b s h, b < B → s < S → h < H → ((outputs * weights.unsqueeze 3).sum 0).get [b, s, h] =
        ∑ e ∈ Finset.range E, outputs.get [e, b, s, h] * weights.get [e, b, s] := by
  have hcolumn : (weights.unsqueeze 3).shape = [E, B, S, 1] := by
    rw [unsqueeze_shape, hweights]
    rfl
  have hproduct : (outputs * weights.unsqueeze 3).shape = [E, B, S, H] := by
    change bshape outputs.shape (weights.unsqueeze 3).shape = _
    rw [houtputs, hcolumn]
    change [if E = 1 then E else E, if B = 1 then B else B, if S = 1 then S else S,
      if H = 1 then 1 else H] = _
    rw [ite_self, ite_self, ite_self, bdim_one]
  constructor
  · rw [sum_shape, hproduct]
    rfl
  · intro b s h hb hs hh
    rw [sum_get, hproduct]
    refine Finset.sum_congr rfl fun e he => ?_
    have he : e < E := Finset.mem_range.mp he
    change outputs.bget [e, b, s, h] * (weights.unsqueeze 3).bget [e, b, s, h] = _
    rw [bget_eq outputs (by simp [houtputs, he, hb, hs, hh])]
    unfold bget
    rw [hcolumn]
    change _ * weights.get [if E = 1 then 0 else e, if B = 1 then 0 else b,
      if S = 1 then 0 else s] = _
    rw [bcast_of_lt he, bcast_of_lt hb, bcast_of_lt hs]

omit [CommRing R] [LinearOrder R] in
theorem view_outputs {outputs : Tensor R} (hshape : outputs.shape = [E, B * S, H])
    (hpos : 0 < ([E, B] ++ [H]).prod) :
    view_infer outputs [E, B] [H] = .ok (outputs.view [E, B, S, H]) := by
  refine view_infer_of_mul hpos ?_
  rw [hshape]
  simp only [List.cons_append, List.nil_append, List.prod_cons, List.prod_nil]
  ring

-- The outputs and the weights by batches.
theorem isWeightedSum_of_outputs {rows outputs weights : Tensor R}
    (hshape : outputs.shape = [E, B * S, H])
    (hget : ∀ e t h, e < E → t < B * S → h < H → outputs.get [e, t, h] =
      self.experts.output self.act e (fun j => rows.get [t, j]) h)
    (hweights : (routing_weights.permute [1, 0]).shape = [E, B * S])
    (heq : weights = (routing_weights.permute [1, 0]).view [E, B, S]) :
    self.IsWeightedSum rows routing_weights B S
      ((outputs.view [E, B, S, H] * weights.unsqueeze 3).sum 0) := by
  subst heq
  obtain ⟨hsum_shape, hsum⟩ := weighted_sum_get (view_shape outputs [E, B, S, H])
    (view_shape (routing_weights.permute [1, 0]) [E, B, S])
  refine ⟨hsum_shape, fun b s h hb hs hh => (hsum b s h hb hs hh).trans ?_⟩
  have hrow : b * S + s < B * S := group_lt hb hs
  refine Finset.sum_congr rfl fun e he => ?_
  have he : e < E := Finset.mem_range.mp he
  have hweight : ((routing_weights.permute [1, 0]).view [E, B, S]).get [e, b, s] =
      routing_weights.get [b * S + s, e] := by
    refine (view_get [e, b * S + s] hweights (by simp [he, hrow]) ?_).trans rfl
    simp only [ravel_cons, ravel_nil, List.prod_cons, List.prod_nil]
    ring
  have hposition : ravel [E, B, S, H] [e, b, s, h] = ravel [E, B * S, H] [e, b * S + s, h] := by
    simp only [ravel_cons, ravel_nil, List.prod_cons, List.prod_nil]
    ring
  rw [hweight, view_get [e, b * S + s, h] hshape (by simp [he, hrow, hh]) hposition,
    hget e (b * S + s) h he hrow hh]
  rfl

theorem experts_forward_device_spec (hweights : routing_weights.shape = [B * S, E])
    (hhead : hidden_states.shape.headD 0 = B) (hprod : hidden_states.shape.prod = B * S * H) :
    if E = 0 ∨ B = 0 ∨ H = 0 then
      self.experts_forward_device hidden_states routing_weights = .error .ambiguous_shape
    else ∃ out, self.experts_forward_device hidden_states routing_weights = .ok out ∧
      self.IsWeightedSum (hidden_states.view [B * S, H]) routing_weights B S out := by
  have hlast : last routing_weights.shape = E := by
    rw [hweights]
    rfl
  have hrows : (hidden_states.view [B * S, H]).shape = [B * S, H] := rfl
  have hrepeated : ((hidden_states.view [B * S, H]).repeats [E, 1]).shape.prod =
      B * S * (E * H) := by
    simp [repeats, hrows]
    ring
  unfold experts_forward_device
  rw [view_rows hprod, hlast, hhead]
  by_cases hH : H = 0
  · rw [if_pos hH, if_pos (.inr (.inr hH))]
    rfl
  by_cases hE : E = 0
  · have hnone : view_infer ((hidden_states.view [B * S, H]).repeats [E, 1]) [E] [H] =
        .error .ambiguous_shape :=
      view_infer_of_zero (by simp [hE]) (by rw [hrepeated, hE]; simp)
    rw [if_neg hH, if_pos (.inl hE)]
    change (view_infer _ [E] [H] >>= _) = _
    rw [hnone]
    rfl
  have hstates : view_infer ((hidden_states.view [B * S, H]).repeats [E, 1]) [E] [H] =
      .ok (((hidden_states.view [B * S, H]).repeats [E, 1]).view [E, B * S, H]) :=
    view_infer_of_mul (by simp; omega) (by rw [hrepeated]; simp)
  obtain ⟨hshape, houtput⟩ := self.all_outputs_spec (view_shape _ [E, B * S, H])
    fun e t j he ht hj => repeated_rows_get hrows he ht hj
  rw [if_neg hH]
  by_cases hB : B = 0
  · rw [if_pos (.inr (.inl hB))]
    change (view_infer _ [E] [H] >>= _) = _
    rw [hstates]
    change (view_infer _ [E, B] [H] >>= _) = _
    rw [view_infer_of_zero (by simp [hB]) (by rw [hshape]; simp [hB])]
    rfl
  · rw [if_neg (by tauto)]
    have hcolumns : (routing_weights.permute [1, 0]).shape = [E, B * S] := by
      unfold permute
      rw [hweights]
      rfl
    have hview_weights : view_infer (routing_weights.permute [1, 0]) [E, B] [] =
        .ok ((routing_weights.permute [1, 0]).view [E, B, S]) :=
      view_infer_of_mul (by simp; omega) (by rw [hcolumns]; simp; ring)
    refine ⟨_, ?_, self.isWeightedSum_of_outputs hshape houtput hcolumns rfl⟩
    change (view_infer _ [E] [H] >>= _) = _
    rw [hstates]
    change (view_infer _ [E, B] [H] >>= _) = _
    rw [view_outputs hshape (by simp; omega)]
    change (view_infer _ [E, B] [] >>= _) = _
    rw [hview_weights]
    rfl

end Device

-- Both raise, or both return the same tensor.
inductive SameOutcome : Except TensorError (Tensor R) → Except TensorError (Tensor R) → Prop
  | ok {t u : Tensor R} (h : Same t u) : SameOutcome (.ok t) (.ok u)
  | error (e : TensorError) : SameOutcome (.error e) (.error e)

theorem IsWeightedSum.same {rows t u : Tensor R} {B S : Nat}
    (ht : self.IsWeightedSum rows routing_weights B S t)
    (hu : self.IsWeightedSum rows routing_weights B S u) : Same t u := by
  refine ⟨ht.1.trans hu.1.symm, fun is his => ?_⟩
  rw [ht.1] at his
  cases his with
  | cons hb his =>
      cases his with
      | cons hs his =>
          cases his with
          | cons hh his =>
              cases his
              exact (ht.2 _ _ _ hb hs hh).trans (hu.2 _ _ _ hb hs hh).symm

-- The hidden states are rows, or rows in batches.
def HasRows (hidden_states : Tensor R) (T H : Nat) : Prop :=
  hidden_states.shape = [T, H] ∨ ∃ B S, T = B * S ∧ hidden_states.shape = [B, S, H]

omit [CommRing R] [LinearOrder R] in
theorem HasRows.batches (h : HasRows hidden_states T H) :
    ∃ B S, T = B * S ∧ hidden_states.shape.headD 0 = B ∧ hidden_states.shape.prod = B * S * H := by
  obtain hshape | ⟨B, S, hT, hshape⟩ := h
  · refine ⟨T, 1, by ring, ?_, ?_⟩
    · rw [hshape]
      rfl
    · simp [hshape]
  · refine ⟨B, S, hT, ?_, ?_⟩
    · rw [hshape]
      rfl
    · simp [hshape, Nat.mul_assoc]

-- Experts over the integers, for one hidden state and one intermediate.
def integer_experts (E : Nat) : GptOssExperts ℤ E 1 1 where
  experts := ⟨ones [E, 1, 2], zeros [E, 2], ones [E, 1, 1], zeros [E, 1], rfl, rfl, rfl, rfl⟩
  act := ⟨.gpt_oss, id, id, 1, 7⟩

end GptOssExperts

end TTXla.TTTorch

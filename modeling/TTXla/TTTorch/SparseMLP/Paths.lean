import TTXla.TTTorch.SparseMLP

-- The elements of the tensors of `A2aSparseMLP.forward`.
namespace TTXla.TTTorch

open Tensor

variable {R : Type} [CommRing R] [LinearOrder R] {E H I : Nat}

section Expert

-- The activation of one gate and one up.
def Activation.scalar (act : Activation R) (gate up : R) : R :=
  match act.activation_type with
  | .deepseek => act.silu gate * up
  | .gpt_oss =>
      let gate := min gate act.limit
      let up := min (max up (-act.limit)) act.limit
      (up + 1) * (gate * act.sigmoid (gate * act.alpha))

namespace Experts

variable (experts : Experts R E H I)

-- The gates and ups of an expert for a token, where `mask` scales the projection.
def gate_up (mask : R) (e : Nat) (x : Nat → R) (n : Nat) : R :=
  (∑ j ∈ Finset.range H, x j * experts.gate_up_proj.get [e, j, n]) * mask +
    experts.gate_up_proj_bias.get [e, n]

def masked_output (act : Activation R) (mask : R) (e : Nat) (x : Nat → R) (h : Nat) : R :=
  (∑ i ∈ Finset.range I, act.scalar (experts.gate_up mask e x (2 * i))
      (experts.gate_up mask e x (1 + 2 * i)) * experts.down_proj.get [e, i, h]) * mask +
    experts.down_proj_bias.get [e, h]

-- What an expert computes for a token.
def output (act : Activation R) (e : Nat) (x : Nat → R) (h : Nat) : R :=
  experts.masked_output act 1 e x h

end Experts

theorem Activation.apply_get (act : Activation R) {gate_out up_out : Tensor R} {ds is : List Nat}
    (hg : gate_out.shape = ds) (hu : up_out.shape = ds) (h : InBounds is ds) :
    (act.apply gate_out up_out).get is = act.scalar (gate_out.get is) (up_out.get is) := by
  unfold Activation.apply Activation.scalar
  cases act.activation_type with
  | deepseek =>
      apply mul_get
      · exact hg ▸ h
      · exact hu ▸ h
  | gpt_oss =>
      have hglu : InBounds is (bshape gate_out.shape gate_out.shape) := by
        rw [bshape_self, hg]
        exact h
      dsimp only
      rw [mul_get _ _ (hu ▸ h) hglu, mul_get _ _ (hg ▸ h) (hg ▸ h)]
      rfl

theorem Activation.apply_shape (act : Activation R) {gate_out up_out : Tensor R} {ds : List Nat}
    (hg : gate_out.shape = ds) (hu : up_out.shape = ds) : (act.apply gate_out up_out).shape = ds := by
  unfold Activation.apply
  cases act.activation_type with
  | deepseek =>
      change bshape gate_out.shape up_out.shape = ds
      rw [hg, hu, bshape_self]
  | gpt_oss =>
      change bshape up_out.shape (bshape gate_out.shape gate_out.shape) = ds
      rw [hg, hu, bshape_self, bshape_self]

end Expert

namespace A2aSparseMLP

variable (self : A2aSparseMLP R E H I)

section Groups

variable {hidden_4d : Tensor R} {dim_a dim_b : Nat}

omit [CommRing R] [LinearOrder R] in
theorem slice_shape {t : Tensor R} (hshape : t.shape = [dim_a, dim_b, M, E, I * 2])
    (start : Nat) : (t.slice start 2 I).shape = [dim_a, dim_b, M, E, I] := by
  unfold slice
  dsimp only
  rw [hshape]
  rfl

-- The activation of a group, from the projection of its tokens.
theorem activate_get {gate_up_out : Tensor R} {x : Nat → R} {μ : R} {a b m e i : Nat}
    (hshape : gate_up_out.shape = [dim_a, dim_b, M, E, I * 2])
    (ha : a < dim_a) (hb : b < dim_b) (hm : m < M) (he : e < E) (hi : i < I)
    (hget : ∀ n < I * 2, gate_up_out.get [a, b, m, e, n] = self.experts.gate_up μ e x n) :
    (self.activate gate_up_out).get [a, b, m, e, i] =
      self.act.scalar (self.experts.gate_up μ e x (2 * i))
        (self.experts.gate_up μ e x (1 + 2 * i)) := by
  unfold activate
  rw [self.act.apply_get (slice_shape hshape 0) (slice_shape hshape 1)
    (by simp [ha, hb, hm, he, hi])]
  congr 1
  · change gate_up_out.get [a, b, m, e, 0 + 2 * i] = _
    rw [Nat.zero_add, hget _ (by omega)]
  · change gate_up_out.get [a, b, m, e, 1 + 2 * i] = _
    rw [hget _ (by omega)]

-- The groups in one dimension, for the second projection.
theorem activated_reshaped_get {gate_up_out : Tensor R} {x : Nat → R} {μ : R}
    {a b m e i : Nat} (hshape : gate_up_out.shape = [dim_a, dim_b, M, E, I * 2])
    (ha : a < dim_a) (hb : b < dim_b) (hm : m < M) (he : e < E) (hi : i < I)
    (hget : ∀ n < I * 2, gate_up_out.get [a, b, m, e, n] = self.experts.gate_up μ e x n) :
    (((self.activate gate_up_out).permute [0, 1, 3, 2, 4]).view
      [dim_a * dim_b, E, M, I]).get [a * dim_b + b, e, m, i] =
      self.act.scalar (self.experts.gate_up μ e x (2 * i))
        (self.experts.gate_up μ e x (1 + 2 * i)) := by
  have hactivated : ((self.activate gate_up_out).permute [0, 1, 3, 2, 4]).shape =
      [dim_a, dim_b, E, M, I] := by
    unfold permute activate
    dsimp only
    rw [self.act.apply_shape (slice_shape hshape 0) (slice_shape hshape 1)]
    rfl
  have hview : (((self.activate gate_up_out).permute [0, 1, 3, 2, 4]).view
      [dim_a * dim_b, E, M, I]).get [a * dim_b + b, e, m, i] =
      ((self.activate gate_up_out).permute [0, 1, 3, 2, 4]).get [a, b, e, m, i] := by
    apply view_get _ hactivated
    · simp [ha, hb, hm, he, hi]
    · simp only [ravel_cons, ravel_nil, List.prod_cons, List.prod_nil]
      ring
  rw [hview]
  exact self.activate_get hshape ha hb hm he hi hget

-- The groups in two dimensions again, and the bias.
omit [LinearOrder R] in
theorem biased_down_get {down_out : Tensor R} {a b m e h : Nat}
    (hshape : down_out.shape = [dim_a * dim_b, E, M, H])
    (ha : a < dim_a) (hb : b < dim_b) (hm : m < M) (he : e < E) (hh : h < H) :
    ((down_out.view [dim_a, dim_b, E, M, H]).permute [0, 1, 3, 2, 4] +
      self.experts.down_proj_bias).get [a, b, m, e, h] =
      down_out.get [a * dim_b + b, e, m, h] + self.experts.down_proj_bias.get [e, h] := by
  have hbias := self.experts.down_proj_bias_shape
  have hin : InBounds [e, h] self.experts.down_proj_bias.shape := by
    rw [hbias]
    simp [he, hh]
  refine (add_get _ _ [a, b, m] [e, h] ?_ hin).trans ?_
  · change InBounds [a, b, m, e, h] [dim_a, dim_b, M, E, H]
    simp [ha, hb, hm, he, hh]
  · congr 1
    change (down_out.view [dim_a, dim_b, E, M, H]).get [a, b, e, m, h] = _
    apply view_get _ hshape
    · simp [group_lt ha hb, hm, he, hh]
    · simp only [ravel_cons, ravel_nil, List.prod_cons, List.prod_nil]
      ring

omit [LinearOrder R] in
theorem biased_gate_up_get {gate_up_out : Tensor R} {a b m e n : Nat}
    (hshape : gate_up_out.shape = [dim_a, dim_b, E, M, I * 2])
    (ha : a < dim_a) (hb : b < dim_b) (hm : m < M) (he : e < E) (hn : n < I * 2) :
    (gate_up_out.permute [0, 1, 3, 2, 4] + self.experts.gate_up_proj_bias).get [a, b, m, e, n] =
      gate_up_out.get [a, b, e, m, n] + self.experts.gate_up_proj_bias.get [e, n] := by
  have hbias := self.experts.gate_up_proj_bias_shape
  refine (add_get _ _ [a, b, m] [e, n] ?_ ?_).trans rfl
  · unfold permute
    rw [hshape]
    change InBounds [a, b, m, e, n] [dim_a, dim_b, M, E, I * 2]
    simp [ha, hb, hm, he, hn]
  · rw [hbias]
    simp [he, hn]

omit [LinearOrder R] in
theorem biased_gate_up_shape {gate_up_out : Tensor R}
    (hshape : gate_up_out.shape = [dim_a, dim_b, E, M, I * 2]) :
    (gate_up_out.permute [0, 1, 3, 2, 4] + self.experts.gate_up_proj_bias).shape =
      [dim_a, dim_b, M, E, I * 2] := by
  change bshape (gate_up_out.permute [0, 1, 3, 2, 4]).shape
    self.experts.gate_up_proj_bias.shape = _
  unfold permute
  rw [hshape, self.experts.gate_up_proj_bias_shape]
  change [if dim_a = 1 then 1 else dim_a, if dim_b = 1 then 1 else dim_b, M,
    if E = 1 then E else E, if I * 2 = 1 then I * 2 else I * 2] = _
  rw [bdim_one, bdim_one, ite_self, ite_self]

omit [LinearOrder R] in
theorem dense_gate_up_shape (hshape : hidden_4d.shape = [dim_a, dim_b, M, H]) :
    (matmul (hidden_4d.unsqueeze 2) (self.experts.gate_up_proj.unsqueeze 0)).shape =
      [dim_a, dim_b, E, M, I * 2] := by
  have hw := self.experts.gate_up_proj_shape
  unfold matmul unsqueeze
  dsimp only
  rw [hshape, hw]
  change [if dim_a = 1 then 1 else dim_a, if dim_b = 1 then 1 else dim_b, E, M, I * 2] = _
  rw [bdim_one, bdim_one]

omit [CommRing R] [LinearOrder R] in
theorem down_proj_get {e i h : Nat} (he : e < E) (hi : i < I) (hh : h < H) :
    (self.experts.down_proj.view [1, E, I, H]).get [0, e, i, h] =
      self.experts.down_proj.get [e, i, h] := by
  apply view_get _ self.experts.down_proj_shape
  · simp [he, hi, hh]
  · simp only [ravel_cons, ravel_nil, List.prod_cons, List.prod_nil, Nat.zero_mul, Nat.zero_add]

-- One weight matrix for each expert.
omit [LinearOrder R] in
theorem down_matmul_get {t u : Tensor R} {G g e m h : Nat} (ht : t.shape = [G, E, M, I])
    (hu : u.shape = [1, E, I, H]) (hg : g < G) (he : e < E) (hm : m < M) (hh : h < H) :
    (matmul t u).get [g, e, m, h] =
      ∑ i ∈ Finset.range I, t.get [g, e, m, i] * u.get [0, e, i, h] := by
  change ∑ i ∈ Finset.range (last t.shape), t.bget [g, e, m, i] * u.bget [g, e, i, h] = _
  rw [ht]
  apply Finset.sum_congr rfl
  intro i hi
  have hi' : i < I := Finset.mem_range.mp hi
  rw [bget_eq t (by simp [ht, hg, he, hm, hi'])]
  unfold bget
  rw [hu]
  change _ * u.get [0, if E = 1 then 0 else e, if I = 1 then 0 else i, if H = 1 then 0 else h] = _
  rw [bcast_of_lt he, bcast_of_lt hi', bcast_of_lt hh]

omit [LinearOrder R] in
theorem biased_down_shape {down_out : Tensor R} :
    ((down_out.view [dim_a, dim_b, E, M, H]).permute [0, 1, 3, 2, 4] +
      self.experts.down_proj_bias).shape = [dim_a, dim_b, M, E, H] := by
  change bshape [dim_a, dim_b, M, E, H] self.experts.down_proj_bias.shape = _
  rw [self.experts.down_proj_bias_shape]
  change [if dim_a = 1 then 1 else dim_a, if dim_b = 1 then 1 else dim_b, M,
    if E = 1 then E else E, if H = 1 then H else H] = _
  rw [bdim_one, bdim_one, ite_self, ite_self]

theorem dense_outputs_get {a b m e h : Nat} (hshape : hidden_4d.shape = [dim_a, dim_b, M, H])
    (ha : a < dim_a) (hb : b < dim_b) (hm : m < M) (he : e < E) (hh : h < H) :
    (self.dense_outputs hidden_4d dim_a dim_b H).get [a, b, m, e, h] =
      self.experts.output self.act e (fun j => hidden_4d.get [a, b, m, j]) h := by
  have hgate_up : ∀ n < I * 2,
      ((matmul (hidden_4d.unsqueeze 2) (self.experts.gate_up_proj.unsqueeze 0)).permute
        [0, 1, 3, 2, 4] + self.experts.gate_up_proj_bias).get [a, b, m, e, n] =
      self.experts.gate_up 1 e (fun j => hidden_4d.get [a, b, m, j]) n := by
    intro n hn
    refine (self.biased_gate_up_get (self.dense_gate_up_shape hshape) ha hb hm he hn).trans ?_
    rw [Experts.gate_up, mul_one]
    congr 1
    have hw := self.experts.gate_up_proj_shape
    change ∑ j ∈ Finset.range (last (hidden_4d.unsqueeze 2).shape),
      (hidden_4d.unsqueeze 2).bget [a, b, e, m, j] *
        (self.experts.gate_up_proj.unsqueeze 0).bget [a, b, e, j, n] = _
    unfold unsqueeze
    dsimp only
    rw [hshape, hw]
    apply Finset.sum_congr rfl
    intro j hj
    have hj' : j < H := Finset.mem_range.mp hj
    congr 1
    · change hidden_4d.get [if dim_a = 1 then 0 else a, if dim_b = 1 then 0 else b,
        if M = 1 then 0 else m, if H = 1 then 0 else j] = _
      rw [bcast_of_lt ha, bcast_of_lt hb, bcast_of_lt hm, bcast_of_lt hj']
    · change self.experts.gate_up_proj.get [if E = 1 then 0 else e, if H = 1 then 0 else j,
        if I * 2 = 1 then 0 else n] = _
      rw [bcast_of_lt he, bcast_of_lt hj', bcast_of_lt hn]
  have hg : a * dim_b + b < dim_a * dim_b := group_lt ha hb
  refine (self.biased_down_get ?_ ha hb hm he hh).trans ?_
  · change [if dim_a * dim_b = 1 then 1 else dim_a * dim_b, if E = 1 then E else E, M, H] = _
    rw [bdim_one, ite_self]
  · rw [Experts.output, Experts.masked_output, mul_one]
    congr 1
    rw [down_matmul_get rfl rfl hg he hm hh]
    apply Finset.sum_congr rfl
    intro i hi
    have hi' : i < I := Finset.mem_range.mp hi
    rw [self.down_proj_get he hi' hh]
    congr 1
    exact self.activated_reshaped_get
      (self.biased_gate_up_shape (self.dense_gate_up_shape hshape)) ha hb hm he hi' hgate_up

-- A group whose mask is zero for an expert leaves the biases.
theorem sparse_outputs_spec {sparsity : Tensor R} (hshape : hidden_4d.shape = [dim_a, dim_b, M, H])
    (hs : sparsity.shape = [dim_a, dim_b, 1, E]) :
    ∃ out, self.sparse_outputs hidden_4d sparsity dim_a dim_b H = some out ∧
      out.shape = [dim_a, dim_b, M, E, H] ∧
      ∀ a b m e h, a < dim_a → b < dim_b → m < M → e < E → h < H → out.get [a, b, m, e, h] =
        self.experts.masked_output self.act (sparsity.get [a, b, 0, e]) e
          (fun j => hidden_4d.get [a, b, m, j]) h := by
  have hw := self.experts.gate_up_proj_shape
  have hw' : (self.experts.gate_up_proj.unsqueeze 0).shape = [1, E, H, I * 2] := by
    unfold unsqueeze
    rw [hw]
    rfl
  obtain ⟨up, hup, hupshape, hupget⟩ := sparse_matmul_dense_sparse sparsity hshape hw'
  have hsq : (up.squeeze 2).shape = [dim_a, dim_b, E, M, I * 2] := by
    unfold squeeze
    rw [hupshape]
    rfl
  have hsqget : ∀ a b e m n, (up.squeeze 2).get [a, b, e, m, n] = up.get [a, b, 0, e, m, n] := by
    intro a b e m n
    unfold squeeze
    rw [hupshape]
    rfl
  have hgate_up : ∀ a b m e, a < dim_a → b < dim_b → m < M → e < E → ∀ n < I * 2,
      ((up.squeeze 2).permute [0, 1, 3, 2, 4] +
        self.experts.gate_up_proj_bias).get [a, b, m, e, n] =
      self.experts.gate_up (sparsity.get [a, b, 0, e]) e (fun j => hidden_4d.get [a, b, m, j])
        n := by
    intro a b m e ha hb hm he n hn
    rw [self.biased_gate_up_get hsq ha hb hm he hn, hsqget, hupget a ha b hb, Experts.gate_up]
    rfl
  obtain ⟨down, hdown, hdownshape, hdownget⟩ := sparse_matmul_sparse_dense
    (((self.activate ((up.squeeze 2).permute [0, 1, 3, 2, 4] +
      self.experts.gate_up_proj_bias)).permute [0, 1, 3, 2, 4]).view [dim_a * dim_b, E, M, I])
    (self.experts.down_proj.view [1, E, I, H]) (sparsity.view [1, 1, dim_a * dim_b, E]) rfl rfl
  have hout : self.sparse_outputs hidden_4d sparsity dim_a dim_b H =
      some ((down.view [dim_a, dim_b, E, M, H]).permute [0, 1, 3, 2, 4] +
        self.experts.down_proj_bias) := by
    unfold sparse_outputs
    dsimp only
    rw [hup, Option.bind_eq_bind, Option.bind_some, hdown]
    rfl
  refine ⟨_, hout, self.biased_down_shape, fun a b m e h ha hb hm he hh => ?_⟩
  · have hg : a * dim_b + b < dim_a * dim_b := group_lt ha hb
    have hmask : (sparsity.view [1, 1, dim_a * dim_b, E]).get [0, 0, a * dim_b + b, e] =
        sparsity.get [a, b, 0, e] := by
      apply view_get _ hs
      · simp [ha, hb, he]
      · simp only [ravel_cons, ravel_nil, List.prod_cons, List.prod_nil]
        ring
    rw [self.biased_down_get hdownshape ha hb hm he hh, hdownget _ hg, hmask,
      Experts.masked_output]
    congr 2
    apply Finset.sum_congr rfl
    intro i hi
    have hi' : i < I := Finset.mem_range.mp hi
    rw [self.down_proj_get he hi' hh, self.activated_reshaped_get (self.biased_gate_up_shape hsq)
      ha hb hm he hi' (hgate_up a b m e ha hb hm he)]

end Groups

end A2aSparseMLP

end TTXla.TTTorch

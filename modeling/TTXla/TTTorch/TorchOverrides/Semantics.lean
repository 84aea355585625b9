import TTXla.TTTorch.TorchOverrides

-- Which calls the replacements answer as torch does.
namespace TTXla.TTTorch

open Excepts Tensor

variable {R : Type} [CommRing R]

section Products

variable {t u : Tensor R} {as bs : List Nat} {m k n : Nat}

def label_sizes (m k n : Nat) : Label → Nat
  | .m => m
  | .k => k
  | .n => n

theorem einsum_mk_kn (ht : t.shape = as ++ [m, k]) (hu : u.shape = bs ++ [k, n])
    (hbatch : Broadcasts as bs) :
    ∃ out, torch_einsum mk_kn t u = .ok out ∧ out.shape = bshape as bs ++ [m, n] ∧
      ∀ pre i j, out.get (pre ++ [i, j]) =
        ∑ x ∈ Finset.range k, t.bget (pre ++ [i, x]) * u.bget (pre ++ [x, j]) := by
  obtain ⟨out, hout, hshape, hget⟩ := einsum_of_shape mk_kn (label_sizes m k n)
    ht hu hbatch (by decide)
  refine ⟨out, get_eq_ok.mpr hout, hshape, fun pre i j => ?_⟩
  rw [hget pre [i, j] rfl, show mk_kn.summed = [.k] from rfl]
  rfl

theorem einsum_mk_nk (ht : t.shape = as ++ [m, k]) (hu : u.shape = bs ++ [n, k])
    (hbatch : Broadcasts as bs) :
    ∃ out, torch_einsum mk_nk t u = .ok out ∧ out.shape = bshape as bs ++ [m, n] ∧
      ∀ pre i j, out.get (pre ++ [i, j]) =
        ∑ x ∈ Finset.range k, t.bget (pre ++ [i, x]) * u.bget (pre ++ [j, x]) := by
  obtain ⟨out, hout, hshape, hget⟩ := einsum_of_shape mk_nk (label_sizes m k n)
    ht hu hbatch (by decide)
  refine ⟨out, get_eq_ok.mpr hout, hshape, fun pre i j => ?_⟩
  rw [hget pre [i, j] rfl, show mk_nk.summed = [.k] from rfl]
  rfl

-- A vector has no dimension for the second label.
theorem einsum_of_vector {equation : Equation Label} (hleft : equation.left.length = 2)
    (hright : equation.right.length = 2) (h : t.shape.length < 2 ∨ u.shape.length < 2) :
    torch_einsum equation t u = .error .RuntimeError := by
  refine get_eq_error.mpr ⟨if_neg ?_, rfl⟩
  rintro ⟨⟨hl, hr⟩, -⟩
  omega

theorem exists_matrix {s : List Nat} (h : 2 ≤ s.length) : ∃ ds a b, s = ds ++ [a, b] := by
  have hne : s ≠ [] := List.ne_nil_of_length_pos (by omega)
  have hne' : s.dropLast ≠ [] := by
    apply List.ne_nil_of_length_pos
    rw [List.length_dropLast]
    omega
  refine ⟨s.dropLast.dropLast, s.dropLast.getLast hne', s.getLast hne, ?_⟩
  rw [← List.singleton_append, ← List.append_assoc, List.dropLast_concat_getLast,
    List.dropLast_concat_getLast]

-- Matrices, with batches that broadcast.
theorem torch_matmul_spec {out : Tensor R} (ht : 2 ≤ t.shape.length) (hu : 2 ≤ u.shape.length)
    (h : torch_matmul t u = .ok out) :
    ∃ as bs m k n, t.shape = as ++ [m, k] ∧ u.shape = bs ++ [k, n] ∧ Broadcasts as bs ∧
      out.shape = bshape as bs ++ [m, n] ∧ ∀ pre i j, out.get (pre ++ [i, j]) =
        ∑ x ∈ Finset.range k, t.bget (pre ++ [i, x]) * u.bget (pre ++ [x, j]) := by
  obtain ⟨as, m, k, hts⟩ := exists_matrix ht
  obtain ⟨bs, k', n, hus⟩ := exists_matrix hu
  have hlast : ∀ (ds : List Nat) (a b : Nat), last (ds ++ [a, b]) = b ∧
      (ds ++ [a, b]).dropLast = ds ++ [a] ∧ (ds ++ [a, b]).dropLast.dropLast = ds := by
    intro ds a b
    rw [← List.singleton_append, ← List.append_assoc, last_append, List.dropLast_concat,
      List.dropLast_concat]
    exact ⟨rfl, rfl, rfl⟩
  unfold torch_matmul at h
  obtain ⟨_, -, h⟩ := bind_eq_ok.mp h
  rw [if_neg (by omega), if_neg (by omega)] at h
  obtain ⟨_, hfits, h⟩ := bind_eq_ok.mp h
  obtain ⟨hk, hbatch⟩ := ensure_eq_ok.mp hfits
  rw [hts, hus, (hlast as m k).1, (hlast bs k' n).2.1, last_append] at hk
  rw [hts, hus, (hlast as m k).2.2, (hlast bs k' n).2.2] at hbatch
  obtain rfl : k = k' := hk
  dsimp only at h
  rw [if_neg (by omega), if_neg (by omega)] at h
  cases h
  refine ⟨as, bs, m, k, n, hts, hus, hbatch, ?_, fun pre i j => ?_⟩
  · unfold Tensor.matmul
    dsimp only
    rw [hts, hus, (hlast as m k).2.2, (hlast bs k n).2.2, (hlast bs k n).1, (hlast as m k).2.1,
      last_append]
  · unfold Tensor.matmul setLast
    dsimp only
    rw [hts, (hlast as m k).1, (hlast pre i j).1, (hlast pre i j).2.1, List.dropLast_concat]
    simp only [List.append_assoc, List.singleton_append]

-- Two products are the same when they agree on the last two indices.
omit [CommRing R] in
theorem same_of_get {out out' : Tensor R} {ds : List Nat} (hshape : out.shape = ds ++ [m, n])
    (hshape' : out'.shape = ds ++ [m, n])
    (hget : ∀ pre i j, i < m → j < n → out'.get (pre ++ [i, j]) = out.get (pre ++ [i, j])) :
    Same out' out := by
  refine ⟨hshape'.trans hshape.symm, fun is his => ?_⟩
  rw [hshape', ← List.singleton_append, ← List.append_assoc] at his
  obtain ⟨is, j, rfl, his, hj⟩ := exists_of_inBounds_append his
  obtain ⟨pre, i, rfl, -, hi⟩ := exists_of_inBounds_append his
  rw [List.append_assoc]
  exact hget pre i j hi hj

theorem einsum_of_matmul {out : Tensor R} (ht : 2 ≤ t.shape.length) (hu : 2 ≤ u.shape.length)
    (h : torch_matmul t u = .ok out) :
    ∃ out', torch_einsum mk_kn t u = .ok out' ∧ Same out' out := by
  obtain ⟨as, bs, m, k, n, hts, hus, hbatch, hshape, hget⟩ := torch_matmul_spec ht hu h
  obtain ⟨out', hout, hshape', hget'⟩ := einsum_mk_kn hts hus hbatch
  exact ⟨out', hout, same_of_get hshape hshape' fun pre i j _ _ =>
    (hget' pre i j).trans (hget pre i j).symm⟩

-- `F.linear` multiplies by the transposed weight.
theorem einsum_of_transposed {out weight_t : Tensor R} (ht : 2 ≤ t.shape.length)
    (hu : 2 ≤ u.shape.length) (hweight : transpose u = .ok weight_t)
    (h : torch_matmul t weight_t = .ok out) :
    ∃ out', torch_einsum mk_nk t u = .ok out' ∧ Same out' out ∧
      out.shape = t.shape.dropLast ++ u.shape.dropLast := by
  obtain ⟨_, hle, hweight⟩ := bind_eq_ok.mp hweight
  have hlen : u.shape.length = 2 := le_antisymm (ensure_eq_ok.mp hle) hu
  rw [if_pos hlen] at hweight
  cases hweight
  obtain ⟨n, k, hus⟩ := List.length_eq_two.mp hlen
  have hpermuted : (u.permute [1, 0]).shape = [k, n] := by
    unfold permute
    rw [hus]
    rfl
  obtain ⟨as, bs, m, k', n', hts, hperm, hbatch, hshape, hget⟩ :=
    torch_matmul_spec ht (by rw [hpermuted]; rfl) h
  obtain ⟨rfl, hkn⟩ : [] = bs ∧ [k, n] = [k', n'] :=
    List.append_inj' (show [] ++ [k, n] = bs ++ [k', n'] from hpermuted.symm.trans hperm) rfl
  cases hkn
  obtain ⟨out', hout, hshape', hget'⟩ :=
    einsum_mk_nk hts (show u.shape = [] ++ [n, k] from hus) hbatch
  refine ⟨out', hout, same_of_get hshape hshape' fun pre i j _ hj => ?_, ?_⟩
  · rw [hget', hget]
    refine Finset.sum_congr rfl fun x hx => ?_
    have hx := Finset.mem_range.mp hx
    have hplace : InBounds [j, x] u.shape := by
      rw [hus]
      simp [hj, hx]
    have hplace_t : InBounds [x, j] (u.permute [1, 0]).shape := by
      rw [hpermuted]
      simp [hj, hx]
    rw [bget_append u pre hplace, bget_append _ pre hplace_t]
    rfl
  · have hbatch_shape : bshape as [] = as := by simpa using bshape_append_self as []
    rw [hshape, hts, hus, hbatch_shape]
    simp

end Products

section Bias

variable {t u b : Tensor R} {ds : List Nat}

-- A bias has the last dimensions of what it is added to.
theorem add_spec (h : t.shape = ds ++ b.shape) :
    ∃ out, add t b = .ok out ∧ out.shape = t.shape ∧
      ∀ is, InBounds is t.shape → out.get is = t.get is + b.bget is := by
  unfold add
  rw [ensure_of (by rw [h]; exact broadcasts_append_self ds b.shape)]
  refine ⟨_, rfl, ?_, fun is his => ?_⟩
  · change bshape t.shape b.shape = t.shape
    rw [h, bshape_append_self]
  · change t.bget is + b.bget is = _
    rw [bget_eq t his]

theorem add_same {out : Tensor R} (hsame : Same t u) (h : u.shape = ds ++ b.shape)
    (hout : add u b = .ok out) : ∃ out', add t b = .ok out' ∧ Same out' out := by
  obtain ⟨v, hv, hshape, hget⟩ := add_spec h
  obtain ⟨v', hv', hshape', hget'⟩ := add_spec (hsame.1.trans h)
  cases hv.symm.trans hout
  refine ⟨v', hv', hshape'.trans (hsame.1.trans hshape.symm), fun is his => ?_⟩
  rw [hshape'] at his
  rw [hget' is his, hget is (hsame.1 ▸ his), hsame.2 is his]

-- A bias that changes nothing is zero wherever it is added.
theorem same_add_iff {out : Tensor R} (hsame : Same t u) (h : u.shape = ds ++ b.shape)
    (hout : add u b = .ok out) : Same t out ↔ ∀ is, InBounds is u.shape → b.bget is = 0 := by
  obtain ⟨v, hv, hshape, hget⟩ := add_spec h
  cases hv.symm.trans hout
  constructor
  · intro hadd is his
    have hzero := hadd.2 is (hsame.1 ▸ his)
    rw [hget is his, hsame.2 is (hsame.1 ▸ his)] at hzero
    exact left_eq_add.mp hzero
  · intro hzero
    refine ⟨hsame.1.trans hshape.symm, fun is his => ?_⟩
    have his' : InBounds is u.shape := hsame.1 ▸ his
    rw [hget is his', hzero is his', add_zero, hsame.2 is his]

end Bias

-- What torch returns is returned.
def Keeps (x y : Except TorchError (Tensor R)) : Prop :=
  ∀ out, y = .ok out → ∃ out', x = .ok out' ∧ Same out' out

-- The operands that the rank test leaves to torch, and those that the products can take.
def Low (t u : Tensor R) : Prop := t.shape.length < 4 ∧ u.shape.length < 4

def Matrices (t u : Tensor R) : Prop := 2 ≤ t.shape.length ∧ 2 ≤ u.shape.length

namespace Call

variable {call : Call R} {input weight out : Tensor R}

-- The bias that is given by keyword.
def KeywordBias (call : Call R) (input weight : Tensor R) : Prop :=
  ∃ bias, call.kwargs .bias = some (some bias) ∧
    ∃ is, InBounds is (input.shape.dropLast ++ weight.shape.dropLast) ∧ bias.bget is ≠ 0

-- The calls that are answered as torch answers them.
def Kept (call : Call R) : Prop :=
  ∃ input weight, call.args[0]? = some (some input) ∧ call.args[1]? = some (some weight) ∧
    (Low input weight ∨ Matrices input weight ∧ ¬call.KeywordBias input weight)

omit [CommRing R] in
theorem positional_of {i : Nat} {t : Tensor R} (h : call.args[i]? = some (some t))
    (e : TorchError) : call.positional i e = .ok t := by
  unfold positional
  rw [h]
  rfl

omit [CommRing R] in
theorem of_positional {i : Nat} {t : Tensor R} {e : TorchError}
    (h : call.positional i e = .ok t) : call.args[i]? = some (some t) := by
  obtain ⟨arg, harg, h⟩ := bind_eq_ok.mp h
  rw [get_eq_ok.mp harg, get_eq_ok.mp h]

-- A keyword is refused for a bias that is given by position.
omit [CommRing R] in
theorem Binds.bias_keyword (h : call.Binds) {bias : Option (Tensor R)}
    (hbias : call.kwargs .bias = some bias) : call.func = .linear ∧ call.args[2]? = none := by
  have hmem := h.2 .bias (by simp) (by rw [hbias]; rfl)
  cases hfunc : call.func with
  | matmul =>
      rw [hfunc] at hmem
      exact absurd (List.mem_of_mem_drop hmem) (by decide)
  | linear =>
      refine ⟨rfl, List.getElem?_eq_none ?_⟩
      by_contra hlong
      have hlen : call.args.length = 3 := by
        have := h.1
        rw [hfunc] at this
        change call.args.length ≤ 3 at this
        omega
      rw [hfunc, hlen] at hmem
      cases hmem

-- What torch computes, when both operands are given by position.
theorem torch_eq_ok (hinput : call.args[0]? = some (some input))
    (hweight : call.args[1]? = some (some weight)) (h : call.torch = .ok out) :
    call.Binds ∧ (call.func = .matmul ∧ torch_matmul input weight = .ok out ∨
      call.func = .linear ∧ torch_linear input weight (call.argument .bias) = .ok out) := by
  unfold torch at h
  obtain ⟨_, hbinds, h⟩ := bind_eq_ok.mp h
  obtain ⟨t, ht, h⟩ := bind_eq_ok.mp h
  refine ⟨ensure_eq_ok.mp hbinds, ?_⟩
  have ht := get_eq_ok.mp ht
  unfold argument at ht
  cases hfunc : call.func with
  | matmul =>
      rw [hfunc] at h ht
      obtain ⟨u, hu, h⟩ := bind_eq_ok.mp h
      have hu := get_eq_ok.mp hu
      unfold argument at hu
      rw [hfunc, show Func.matmul.parameters.idxOf .other = 1 from rfl, hweight] at hu
      rw [show Func.matmul.parameters.idxOf .input = 0 from rfl, hinput] at ht
      cases hu
      cases ht
      exact .inl ⟨rfl, h⟩
  | linear =>
      rw [hfunc] at h ht
      obtain ⟨u, hu, h⟩ := bind_eq_ok.mp h
      have hu := get_eq_ok.mp hu
      unfold argument at hu
      rw [hfunc, show Func.linear.parameters.idxOf .weight = 1 from rfl, hweight] at hu
      rw [show Func.linear.parameters.idxOf .input = 0 from rfl, hinput] at ht
      cases hu
      cases ht
      exact .inr ⟨rfl, h⟩

end Call

namespace TorchFunctionOverride

variable {call : Call R} {input weight out : Tensor R}

theorem torch_function_of_low (hinput : call.args[0]? = some (some input))
    (hweight : call.args[1]? = some (some weight)) (h : Low input weight) :
    torch_function false call = call.torch := by
  unfold torch_function is_long
  rw [if_neg Bool.false_ne_true, Call.positional_of hinput, Call.positional_of hweight]
  dsimp only [bind, Except.bind, pure, Except.pure]
  rw [if_neg (by have := h.1; omega)]
  dsimp only
  rw [if_neg (by have := h.2; simpa using this)]

theorem torch_function_of_long (hinput : call.args[0]? = some (some input))
    (hweight : call.args[1]? = some (some weight)) (h : ¬Low input weight) :
    torch_function false call = replacement call input weight := by
  have hlong : is_long call = .ok true := by
    unfold is_long
    rw [Call.positional_of hinput, Call.positional_of hweight]
    dsimp only [bind, Except.bind, pure, Except.pure]
    by_cases hrank : 4 ≤ input.shape.length
    · rw [if_pos hrank]
    · rw [if_neg hrank, decide_eq_true]
      by_contra hweight
      exact h ⟨by omega, by omega⟩
  unfold torch_function
  rw [if_neg Bool.false_ne_true, hlong, Call.positional_of hinput, Call.positional_of hweight]
  rfl

-- Both operands are read from the positional arguments.
theorem positional_of_ok (h : torch_function false call = .ok out) :
    ∃ input weight, call.args[0]? = some (some input) ∧ call.args[1]? = some (some weight) := by
  unfold torch_function at h
  rw [if_neg Bool.false_ne_true] at h
  obtain ⟨long, hlong, h⟩ := bind_eq_ok.mp h
  obtain ⟨input, hinput, hlong⟩ := bind_eq_ok.mp hlong
  refine ⟨input, ?_⟩
  cases long with
  | true =>
      rw [if_pos rfl] at h
      obtain ⟨_, -, h⟩ := bind_eq_ok.mp h
      obtain ⟨weight, hweight, -⟩ := bind_eq_ok.mp h
      exact ⟨weight, Call.of_positional hinput, Call.of_positional hweight⟩
  | false =>
      split at hlong
      · cases hlong
      · obtain ⟨weight, hweight, -⟩ := bind_eq_ok.mp hlong
        exact ⟨weight, Call.of_positional hinput, Call.of_positional hweight⟩

theorem replacement_of_vector (h : ¬Matrices input weight) :
    replacement call input weight = .error .RuntimeError := by
  have hshort : input.shape.length < 2 ∨ weight.shape.length < 2 := by
    unfold Matrices at h
    omega
  unfold replacement
  cases call.func with
  | matmul =>
      dsimp only
      rw [einsum_of_vector rfl rfl hshort]
      rfl
  | linear =>
      dsimp only
      rw [einsum_of_vector rfl rfl hshort]
      rfl

theorem replacement_of_matmul (hfunc : call.func = .matmul) (hbinds : call.Binds)
    (hmatrices : Matrices input weight) (h : torch_matmul input weight = .ok out) :
    ∃ out', replacement call input weight = .ok out' ∧ Same out' out := by
  obtain ⟨out', hout', hsame⟩ := einsum_of_matmul hmatrices.1 hmatrices.2 h
  have hnone : call.args[2]? = none := by
    apply List.getElem?_eq_none
    have := hbinds.1
    rwa [hfunc] at this
  refine ⟨out', ?_, hsame⟩
  unfold replacement
  rw [hfunc, hnone]
  dsimp only
  rw [hout']
  rfl

-- The product is that of torch, and so is the result when the bias is read.
theorem replacement_of_linear (hfunc : call.func = .linear) (hbinds : call.Binds)
    (hmatrices : Matrices input weight)
    (h : torch_linear input weight (call.argument .bias) = .ok out) :
    (∃ out', replacement call input weight = .ok out' ∧ Same out' out) ↔
      ¬call.KeywordBias input weight := by
  obtain ⟨weight_t, htranspose, h⟩ := bind_eq_ok.mp h
  obtain ⟨output, houtput, h⟩ := bind_eq_ok.mp h
  obtain ⟨res, hres, hsame, hshape⟩ :=
    einsum_of_transposed hmatrices.1 hmatrices.2 htranspose houtput
  have hbias_shape : ∀ b : Tensor R, b.shape = [] ∨ b.shape = weight.shape.dropLast →
      ∃ ds, output.shape = ds ++ b.shape := by
    rintro b (hb | hb)
    · exact ⟨output.shape, by rw [hb, List.append_nil]⟩
    · exact ⟨input.shape.dropLast, by rw [hb, hshape]⟩
  have hargument : call.argument .bias = (call.args[2]?.or (call.kwargs .bias)).join := by
    unfold Call.argument
    rw [hfunc]
    rfl
  have hno_keyword : ∀ arg, call.args[2]? = some arg → ¬call.KeywordBias input weight := by
    rintro arg harg ⟨bias, hbias, -⟩
    rw [(hbinds.bias_keyword hbias).2] at harg
    cases harg
  unfold replacement
  rw [hfunc]
  dsimp only
  rw [hres]
  rw [hargument] at h
  cases hpositional : call.args[2]? with
  | none =>
      rw [hpositional, Option.none_or] at h
      cases hkeyword : (call.kwargs .bias).join with
      | none =>
          rw [hkeyword] at h
          cases h
          refine iff_of_true ⟨res, rfl, hsame⟩ ?_
          rintro ⟨bias, hbias, -⟩
          rw [hbias] at hkeyword
          cases hkeyword
      | some bias =>
          -- the bias is not read
          rw [hkeyword] at h
          obtain ⟨_, hshapes, hadd⟩ := bind_eq_ok.mp h
          obtain ⟨ds, hds⟩ := hbias_shape bias (ensure_eq_ok.mp hshapes)
          have hbias : call.kwargs .bias = some (some bias) := Option.join_eq_some_iff.mp hkeyword
          have hzero := same_add_iff hsame hds hadd
          rw [hshape] at hzero
          constructor
          · rintro ⟨out', hout', hout⟩ ⟨bias', hbias', is, his, hne⟩
            cases hout'
            cases hbias.symm.trans hbias'
            exact hne (hzero.mp hout is his)
          · intro hnot
            refine ⟨res, rfl, hzero.mpr fun is his => ?_⟩
            by_contra hne
            exact hnot ⟨bias, hbias, is, his, hne⟩
  | some arg =>
      rw [hpositional, Option.some_or, Option.join_some] at h
      refine iff_of_true ?_ (hno_keyword arg hpositional)
      cases arg with
      | none =>
          cases h
          exact ⟨res, rfl, hsame⟩
      | some bias =>
          obtain ⟨_, hshapes, hadd⟩ := bind_eq_ok.mp h
          obtain ⟨ds, hds⟩ := hbias_shape bias (ensure_eq_ok.mp hshapes)
          exact add_same hsame hds hadd

omit [CommRing R] in
theorem keeps_of_eq {x y : Except TorchError (Tensor R)} (h : x = y) : Keeps x y :=
  fun out hout => ⟨out, h.trans hout, rfl, fun _ _ => rfl⟩

-- A call that torch answers.
theorem override_returned_iff (h : call.torch = .ok out) :
    (∃ out', torch_function false call = .ok out' ∧ Same out' out) ↔ call.Kept := by
  have hlong : ∀ input weight, call.args[0]? = some (some input) →
      call.args[1]? = some (some weight) → Matrices input weight →
        ((∃ out', replacement call input weight = .ok out' ∧ Same out' out) ↔
          ¬call.KeywordBias input weight) := by
    intro input weight hinput hweight hmatrices
    obtain ⟨hbinds, ⟨hfunc, hmatmul⟩ | ⟨hfunc, hlinear⟩⟩ := Call.torch_eq_ok hinput hweight h
    · refine iff_of_true (replacement_of_matmul hfunc hbinds hmatrices hmatmul) ?_
      rintro ⟨bias, hbias, -⟩
      rw [(hbinds.bias_keyword hbias).1] at hfunc
      cases hfunc
    · exact replacement_of_linear hfunc hbinds hmatrices hlinear
  constructor
  · rintro ⟨out', hout', hsame⟩
    obtain ⟨input, weight, hinput, hweight⟩ := positional_of_ok hout'
    refine ⟨input, weight, hinput, hweight, ?_⟩
    by_cases hlow : Low input weight
    · exact .inl hlow
    · rw [torch_function_of_long hinput hweight hlow] at hout'
      by_cases hmatrices : Matrices input weight
      · have hbias := (hlong input weight hinput hweight hmatrices).mp ⟨out', hout', hsame⟩
        exact .inr ⟨hmatrices, hbias⟩
      · rw [replacement_of_vector hmatrices] at hout'
        cases hout'
  · rintro ⟨input, weight, hinput, hweight, hcases⟩
    by_cases hlow : Low input weight
    · exact keeps_of_eq (torch_function_of_low hinput hweight hlow) out h
    · obtain ⟨hmatrices, hbias⟩ := hcases.resolve_left hlow
      rw [torch_function_of_long hinput hweight hlow]
      exact (hlong input weight hinput hweight hmatrices).mpr hbias

theorem keeps_iff (call : Call R) (is_compiling : Bool) :
    Keeps (torch_function is_compiling call) call.torch ↔
      is_compiling = true ∨ call.Kept ∨ ∃ e, call.torch = .error e := by
  cases is_compiling with
  | true => exact iff_of_true (keeps_of_eq rfl) (.inl rfl)
  | false =>
      cases htorch : call.torch with
      | error e => exact iff_of_true (fun out hout => nomatch hout) (.inr (.inr ⟨e, rfl⟩))
      | ok out =>
          have hreturned := override_returned_iff htorch
          constructor
          · intro hkeeps
            exact .inr (.inl (hreturned.mp (hkeeps out rfl)))
          · rintro (hfalse | hkept | ⟨e, he⟩)
            · cases hfalse
            · intro out' hout'
              cases hout'
              exact hreturned.mpr hkept
            · cases he

end TorchFunctionOverride

-- The decomposition has no bias to add.
theorem decomposed_matmul_keeps_iff (input other : Tensor R) :
    Keeps (decomposed_matmul input other) (torch_matmul input other) ↔
      Low input other ∨ Matrices input other ∨ ∃ e, torch_matmul input other = .error e := by
  by_cases hlow : Low input other
  · have hnone : matmul input other none = none := by
      refine if_neg ?_
      unfold Low at hlow
      omega
    refine iff_of_true (TorchFunctionOverride.keeps_of_eq ?_) (.inl hlow)
    rw [decomposed_matmul, hnone, Option.getD_none]
  · have hsome : decomposed_matmul input other = torch_einsum mk_kn input other := by
      have hrank : 4 ≤ input.shape.length ∨ 4 ≤ other.shape.length := by
        unfold Low at hlow
        omega
      unfold decomposed_matmul matmul
      rw [if_pos hrank, Option.getD_some]
      cases torch_einsum mk_kn input other <;> rfl
    rw [hsome]
    cases htorch : torch_matmul input other with
    | error e => exact iff_of_true (fun out hout => nomatch hout) (.inr (.inr ⟨e, rfl⟩))
    | ok out =>
        by_cases hmatrices : Matrices input other
        · refine iff_of_true ?_ (.inr (.inl hmatrices))
          intro out' hout'
          cases hout'
          exact einsum_of_matmul hmatrices.1 hmatrices.2 htorch
        · refine iff_of_false ?_ ?_
          · intro hkeeps
            obtain ⟨out', hout', -⟩ := hkeeps out rfl
            rw [einsum_of_vector rfl rfl (by unfold Matrices at hmatrices; omega)] at hout'
            cases hout'
          · rintro (h | h | ⟨e, he⟩)
            · exact hlow h
            · exact hmatrices h
            · cases he

-- Both replacements, for every call.
theorem overrides_keep_iff :
    (∀ (is_compiling : Bool) (call : Call R),
      Keeps (TorchFunctionOverride.torch_function is_compiling call) call.torch ↔
        is_compiling = true ∨ call.Kept ∨ ∃ e, call.torch = .error e) ∧
    ∀ input other : Tensor R, Keeps (decomposed_matmul input other) (torch_matmul input other) ↔
      Low input other ∨ Matrices input other ∨ ∃ e, torch_matmul input other = .error e :=
  ⟨fun is_compiling call => TorchFunctionOverride.keeps_iff call is_compiling,
    decomposed_matmul_keeps_iff⟩

-- `F.linear(x, w, bias=b)` with ones of four dimensions.
def keyword_call : Call ℤ where
  func := .linear
  args := [some (Tensor.ones [1, 1, 1, 1]), some (Tensor.ones [1, 1])]
  kwargs := fun kw => if kw = .bias then some (some (Tensor.ones [1])) else none

theorem keyword_call_differs : ¬∀ (is_compiling : Bool) (call : Call ℤ),
    Keeps (TorchFunctionOverride.torch_function is_compiling call) call.torch := by
  intro h
  obtain ⟨out', hout', hsame⟩ := h false keyword_call _ rfl
  cases hout'
  have hplace : InBounds [0, 0, 0, 0] [1, 1, 1, 1] := by simp
  exact absurd (hsame.2 [0, 0, 0, 0] hplace) (by decide)

end TTXla.TTTorch

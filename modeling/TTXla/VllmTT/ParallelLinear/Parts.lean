import TTXla.VllmTT.ParallelLinear

-- When the wrappers return what the layers that they replace return.
namespace TTXla.VllmTT

open Excepts Tensor

variable {R : Type} {g : List Nat → Nat → R} {ds : List Nat} {start n m : Nat}

-- A tensor holds the values of a function, from a place of the last dimension on.
structure Window (g : List Nat → Nat → R) (ds : List Nat) (start n : Nat) (t : Tensor R) :
    Prop where
  shape_eq : t.shape = ds ++ [n]
  get_eq : ∀ is i, InBounds is ds → i < n → t.get (is ++ [i]) = g is (start + i)

theorem Window.same {t u : Tensor R} (ht : Window g ds start n t) (hu : Window g ds start n u) :
    Same t u := by
  refine ⟨ht.shape_eq.trans hu.shape_eq.symm, fun is his => ?_⟩
  rw [ht.shape_eq] at his
  obtain ⟨pre, i, rfl, hpre, hi⟩ := exists_of_inBounds_append his
  rw [ht.get_eq pre i hpre hi, hu.get_eq pre i hpre hi]

theorem Window.catLast {t u : Tensor R} (ht : Window g ds start n t)
    (hu : Window g ds (start + n) m u) : Window g ds start (n + m) (t.catLast u) := by
  constructor
  · unfold Tensor.catLast
    dsimp only
    rw [ht.shape_eq, hu.shape_eq, setLast_append, last_append, last_append]
  · intro is i his hi
    unfold Tensor.catLast
    dsimp only
    rw [last_append, ht.shape_eq, last_append, setLast_append]
    split
    · exact ht.get_eq is i his ‹_›
    · rw [hu.get_eq is (i - n) his (by omega)]
      congr 1
      omega

-- Tensors that continue each other.
inductive Windows (g : List Nat → Nat → R) (ds : List Nat) :
    Nat → List Nat → List (Tensor R) → Prop
  | nil (start : Nat) : Windows g ds start [] []
  | cons {start n : Nat} {sizes : List Nat} {t : Tensor R} {ts : List (Tensor R)}
      (ht : Window g ds start n t) (hts : Windows g ds (start + n) sizes ts) :
      Windows g ds start (n :: sizes) (t :: ts)

theorem Windows.foldl {sizes : List Nat} {ts : List (Tensor R)} {t : Tensor R}
    (hts : Windows g ds (start + n) sizes ts) (ht : Window g ds start n t) :
    Window g ds start (n + sizes.sum) (ts.foldl Tensor.catLast t) := by
  induction sizes generalizing n t ts with
  | nil =>
      cases hts
      exact ht
  | cons size sizes ih =>
      cases hts with
      | cons hu hts =>
          rw [List.foldl_cons, List.sum_cons, ← Nat.add_assoc]
          rw [Nat.add_assoc] at hts
          exact ih hts (ht.catLast hu)

theorem Windows.cat {sizes : List Nat} {ts : List (Tensor R)}
    (hts : Windows g ds start sizes ts) (hsizes : sizes ≠ []) :
    ∃ out, VllmTT.cat ts = .ok out ∧ Window g ds start sizes.sum out := by
  cases hts with
  | nil => exact absurd rfl hsizes
  | cons ht hts => exact ⟨_, rfl, hts.foldl ht⟩

section Parts

variable [CommRing R] {input weight : Tensor R} {bias : Option (Tensor R)} {N C : Nat}

-- The value of a linear layer at a row of its weight.
def linear_value (input weight : Tensor R) (bias : Option (Tensor R)) (C : Nat) (is : List Nat)
    (row : Nat) : R :=
  (∑ k ∈ Finset.range C, input.get (is ++ [k]) * weight.get [row, k]) +
    (bias.map fun b => b.get [row]).getD 0

-- A part of a weight and of its bias give the values of their rows.
theorem linear_part (weight : Tensor R) (bias : Option (Tensor R)) (start n : Nat)
    {w : Tensor R} {b : Option (Tensor R)} (hinput : input.shape = ds ++ [C])
    (hw : w.shape = [n, C])
    (hw_get : ∀ i k, i < n → k < C → w.get [i, k] = weight.get [start + i, k])
    (hb : ∀ i < n, (b.map fun b => b.get [i]) = bias.map fun b => b.get [start + i]) :
    ∃ out, linear input w b = .ok out ∧
      Window (linear_value input weight bias C) ds start n out := by
  have haccepts : input.shape ≠ [] ∧ last input.shape = last w.shape := by
    rw [hinput, hw, last_append]
    exact ⟨by simp, rfl⟩
  unfold linear
  rw [ensure_of haccepts]
  refine ⟨_, rfl, ?_, fun is i his hi => ?_⟩
  · dsimp only
    rw [hinput, hw, setLast_append]
    rfl
  · dsimp only
    rw [hinput, last_append, last_append, hb i hi]
    refine congrArg (· + _) (Finset.sum_congr rfl fun k hk => ?_)
    rw [setLast_append, hw_get i k hi (Finset.mem_range.mp hk)]

-- The parts of a bias, as the parts of a weight.
def split_bias (bias : Option (Tensor R)) : Nat → List Nat → List (Option (Tensor R))
  | _, [] => []
  | start, size :: sizes =>
      bias.map (fun b => slice_rows b start (start + size)) ::
        split_bias bias (start + size) sizes

omit [CommRing R] in
theorem split_bias_eq (bias : Option (Tensor R)) (start : Nat) (sizes : List Nat) :
    (match bias with
    | some bias => (split_rows bias start sizes).map some
    | none => List.replicate sizes.length none) = split_bias bias start sizes := by
  induction sizes generalizing start with
  | nil => cases bias <;> rfl
  | cons size sizes ih =>
      rw [split_bias, ← ih]
      cases bias <;> rfl

omit [CommRing R] in
theorem slice_rows_shape {ds : List Nat} (hw : weight.shape = N :: ds) (hle : start + n ≤ N) :
    (slice_rows weight start (start + n)).shape = n :: ds := by
  unfold slice_rows
  rw [hw]
  change (min (start + n) N - start) :: ds = _
  rw [Nat.min_eq_left hle, Nat.add_sub_cancel_left]

-- The projections of the parts of a layer continue each other.
theorem projections_spec (bias : Option (Tensor R)) (hinput : input.shape = ds ++ [C])
    (hweight : weight.shape = [N, C]) (skip : Bool) (start : Nat) (sizes : List Nat)
    (hle : start + sizes.sum ≤ N) :
    ∃ ts, ((split_rows weight start sizes).zip (split_bias bias start sizes)).mapM
        (fun x => linear input x.1 (if skip then none else x.2)) = .ok ts ∧
      Windows (linear_value input weight (if skip then none else bias) C) ds start sizes ts := by
  induction sizes generalizing start with
  | nil => exact ⟨[], rfl, .nil start⟩
  | cons size sizes ih =>
      rw [List.sum_cons, ← Nat.add_assoc] at hle
      obtain ⟨ts, hts, hwindows⟩ := ih (start + size) hle
      have hpart : ∀ i < size, ((if skip then none else bias.map fun b =>
          slice_rows b start (start + size)).map fun b => b.get [i]) =
            (if skip then none else bias).map fun b => b.get [start + i] := by
        intro i _
        cases skip
        · cases bias <;> rfl
        · rfl
      obtain ⟨t, ht, hwindow⟩ := linear_part weight (if skip then none else bias) start size hinput
        (slice_rows_shape hweight (by omega)) (fun i k _ _ => rfl) hpart
      refine ⟨t :: ts, ?_, .cons hwindow hwindows⟩
      rw [split_rows, split_bias, List.zip_cons_cons, List.mapM_cons]
      dsimp only
      rw [ht, hts]
      rfl

omit [CommRing R] in
theorem bias_windows {b : Tensor R} (hb : b.shape = [N]) {sizes : List Nat}
    (hle : start + sizes.sum ≤ N) :
    Windows (fun _ j => b.get [j]) [] start sizes (split_rows b start sizes) := by
  induction sizes generalizing start with
  | nil => exact .nil start
  | cons size sizes ih =>
      rw [List.sum_cons, ← Nat.add_assoc] at hle
      refine .cons ⟨slice_rows_shape hb (by omega), fun is i his _ => ?_⟩ (ih hle)
      cases his
      rfl

theorem linear_of_mismatch {w : Tensor R} {b : Option (Tensor R)}
    (h : ¬(input.shape ≠ [] ∧ last input.shape = last w.shape)) :
    linear input w b = .error .shape_mismatch := by
  unfold linear
  rw [ensure, if_neg h]
  rfl

end Parts

section Outcomes

variable [CommRing R]

-- `ColumnParallelLinear.forward` of vLLM, on one device.
def ColumnParallelLinear.Documented (layer : ColumnParallelLinear R) : Prop :=
  ∀ input, layer.forward input = do
    let output ← linear input layer.weight (if layer.skip_bias_add then none else layer.bias)
    return returned layer.return_bias output (if layer.skip_bias_add then layer.bias else none)

inductive SameOutput : LayerOutput R → LayerOutput R → Prop
  | output {t u : Tensor R} (h : Same t u) : SameOutput (.output t) (.output u)
  | with_bias {t u : Tensor R} {b c : Option (Tensor R)} (h : Same t u)
      (hb : Option.Rel Same b c) : SameOutput (.with_bias t b) (.with_bias u c)

-- Both raise, or both return the same tensors.
inductive SameOutcome :
    Except LinearError (LayerOutput R) → Except LinearError (LayerOutput R) → Prop
  | ok {x y : LayerOutput R} (h : SameOutput x y) : SameOutcome (.ok x) (.ok y)
  | error (e e' : LinearError) : SameOutcome (.error e) (.error e')

omit [CommRing R] in
theorem sameOutput_returned (return_bias : Bool) {t u : Tensor R} {b c : Option (Tensor R)}
    (h : Same t u) (hb : Option.Rel Same b c) :
    SameOutput (returned return_bias t b) (returned return_bias u c) := by
  cases return_bias with
  | true => exact .with_bias h hb
  | false => exact .output h

-- The inputs that the weight can be applied to.
def ColumnParallelLinear.Accepts (layer : ColumnParallelLinear R) (input : Tensor R) : Prop :=
  input.shape ≠ [] ∧ last input.shape = layer.input_size

variable {layer : ColumnParallelLinear R} {input : Tensor R}

omit [CommRing R] in
theorem ColumnParallelLinear.Accepts.shape_eq (h : layer.Accepts input) :
    ∃ ds, input.shape = ds ++ [layer.input_size] := by
  obtain ⟨hne, hlast⟩ := h
  rw [last, List.getLast?_eq_getLast_of_ne_nil hne, Option.getD_some] at hlast
  rw [← hlast]
  exact ⟨input.shape.dropLast, (List.dropLast_concat_getLast hne).symm⟩

-- The layer itself, on an input that it accepts.
theorem ColumnParallelLinear.Documented.forward_spec (hlayer : layer.Documented)
    (hinput : input.shape = ds ++ [layer.input_size]) :
    ∃ out, layer.forward input = .ok (returned layer.return_bias out
        (if layer.skip_bias_add then layer.bias else none)) ∧
      Window (linear_value input layer.weight (if layer.skip_bias_add then none else layer.bias)
        layer.input_size) ds 0 layer.output_sizes.sum out := by
  obtain ⟨out, hout, hwindow⟩ := linear_part layer.weight
    (if layer.skip_bias_add then none else layer.bias) 0 layer.output_sizes.sum hinput
      layer.weight_shape (fun i k _ _ => by rw [Nat.zero_add]) (fun i _ => by rw [Nat.zero_add])
  refine ⟨out, ?_, hwindow⟩
  rw [hlayer, hout]
  rfl

theorem ColumnParallelLinear.Documented.forward_of_mismatch (hlayer : layer.Documented)
    (h : ¬layer.Accepts input) :
    layer.forward input = .error .shape_mismatch := by
  have hlast : last layer.weight.shape = layer.input_size := by
    rw [layer.weight_shape]
    rfl
  rw [hlayer, linear_of_mismatch (by rwa [hlast])]
  rfl

-- The biases of the parts are those of the layer.
omit [CommRing R] in
theorem output_bias_spec (hsizes : layer.output_sizes ≠ []) :
    ∃ output_bias, (XlaMergedColumnParallelLinear.init layer).output_bias = .ok output_bias ∧
      Option.Rel Same output_bias (if layer.skip_bias_add then layer.bias else none) := by
  unfold XlaMergedColumnParallelLinear.output_bias XlaMergedColumnParallelLinear.init
  cases hskip : layer.skip_bias_add with
  | false => exact ⟨none, rfl, .none⟩
  | true =>
      cases hbias : layer.bias with
      | none =>
          refine ⟨none, ?_, .none⟩
          dsimp only
          rw [if_pos rfl, List.reduceOption_replicate_none]
          rfl
      | some b =>
          have hb : b.shape = [layer.output_sizes.sum] := layer.bias_shape b hbias
          have hwindows : Windows (fun _ j => b.get [j]) [] 0 layer.output_sizes
              (split_rows b 0 layer.output_sizes) := bias_windows hb (by omega)
          obtain ⟨out, hcat, hwindow⟩ := hwindows.cat hsizes
          have hne : split_rows b 0 layer.output_sizes ≠ [] := by
            intro hnil
            rw [hnil] at hcat
            cases hcat
          have hparts : ((split_rows b 0 layer.output_sizes).map some).reduceOption =
              split_rows b 0 layer.output_sizes := by
            simp [List.reduceOption]
          dsimp only
          rw [if_pos rfl, hparts, if_neg hne, hcat]
          refine ⟨some out, rfl, .some (hwindow.same ⟨hb, fun is i his _ => ?_⟩)⟩
          cases his
          rw [Nat.zero_add]
          rfl

-- A part of the weight accepts what the weight accepts.
theorem linear_of_mismatch_part (h : ¬layer.Accepts input) (start end_idx : Nat)
    (b : Option (Tensor R)) :
    linear input (slice_rows layer.weight start end_idx) b = .error .shape_mismatch := by
  have hlast : last (slice_rows layer.weight start end_idx).shape = layer.input_size := by
    unfold slice_rows
    rw [layer.weight_shape]
    rfl
  exact linear_of_mismatch (by rwa [hlast])

namespace XlaMergedColumnParallelLinear

theorem forward_same (hlayer : layer.Documented) (hsizes : layer.output_sizes ≠ [])
    (input : Tensor R) : SameOutcome ((init layer).forward input) (layer.forward input) := by
  have hbiases : (init layer).biases = split_bias layer.bias 0 layer.output_sizes :=
    split_bias_eq layer.bias 0 layer.output_sizes
  by_cases haccepts : layer.Accepts input
  · obtain ⟨ds, hinput⟩ := haccepts.shape_eq
    obtain ⟨out, hforward, hwindow⟩ := hlayer.forward_spec hinput
    obtain ⟨ts, hts, hwindows⟩ := projections_spec layer.bias hinput layer.weight_shape
      layer.skip_bias_add 0 layer.output_sizes (by omega)
    obtain ⟨merged_proj, hcat, hmerged⟩ := hwindows.cat hsizes
    obtain ⟨output_bias, hbias, hrel⟩ := output_bias_spec hsizes
    have hprojections : ((init layer).weights.zip (init layer).biases).mapM (fun x =>
        linear input x.1 (if (init layer).skip_bias_add then none else x.2)) = .ok ts := by
      rw [hbiases]
      exact hts
    rw [hforward]
    unfold forward
    rw [hprojections]
    dsimp only [bind, Except.bind]
    rw [hcat]
    dsimp only
    rw [hbias]
    exact .ok (sameOutput_returned _ (hmerged.same hwindow) hrel)
  · rw [hlayer.forward_of_mismatch haccepts]
    obtain ⟨size, sizes, hcons⟩ := List.exists_cons_of_ne_nil hsizes
    unfold forward
    rw [hbiases, show (init layer).weights = split_rows layer.weight 0 layer.output_sizes from rfl,
      hcons, split_rows, split_bias, List.zip_cons_cons, List.mapM_cons,
      linear_of_mismatch_part haccepts]
    exact .error _ _

-- There is nothing to concatenate.
theorem forward_of_no_sizes (hsizes : layer.output_sizes = []) (input : Tensor R) :
    (init layer).forward input = .error .RuntimeError := by
  unfold forward
  rw [show (init layer).weights = split_rows layer.weight 0 layer.output_sizes from rfl, hsizes]
  rfl

end XlaMergedColumnParallelLinear

namespace XlaQKVParallelLinear

variable {layer : QKVParallelLinear R}

-- The three parts are cut where the merged layer cuts.
omit [CommRing R] in
theorem weights_eq : [(init layer).q_weight, (init layer).k_weight, (init layer).v_weight] =
    split_rows layer.weight 0 layer.output_sizes := by
  have hrows : layer.weight.shape.headD 0 = layer.num_heads * layer.head_size +
      layer.num_kv_heads * layer.head_size + layer.num_kv_heads * layer.v_head_size := by
    rw [layer.weight_shape, layer.output_sizes_eq, List.sum_cons, List.sum_cons, List.sum_cons,
      List.sum_nil, List.headD_cons]
    omega
  rw [layer.output_sizes_eq]
  unfold init
  dsimp only
  rw [hrows, split_rows, split_rows, split_rows, split_rows, Nat.zero_add]

omit [CommRing R] in
theorem biases_eq : [(init layer).q_bias, (init layer).k_bias, (init layer).v_bias] =
    split_bias layer.bias 0 layer.output_sizes := by
  rw [layer.output_sizes_eq, split_bias, split_bias, split_bias, split_bias, Nat.zero_add]
  unfold init
  dsimp only
  cases hbias : layer.bias with
  | none => rfl
  | some b =>
      have hrows : b.shape.headD 0 = layer.num_heads * layer.head_size +
          layer.num_kv_heads * layer.head_size + layer.num_kv_heads * layer.v_head_size := by
        rw [layer.bias_shape b hbias, layer.output_sizes_eq, List.sum_cons, List.sum_cons,
          List.sum_cons, List.sum_nil, List.headD_cons]
        omega
      simp only [Option.map_some]
      rw [hrows]

-- The projections, as the merged layer makes them.
theorem forward_eq (self : XlaQKVParallelLinear R) (input : Tensor R) :
    self.forward input = do
      let projections ← ([self.q_weight, self.k_weight, self.v_weight].zip
        [self.q_bias, self.k_bias, self.v_bias]).mapM fun x => linear input x.1 (self.added x.2)
      let qkv_proj ← cat projections
      let output_bias ← self.output_bias
      return returned self.return_bias qkv_proj output_bias := by
  unfold forward
  simp only [List.zip_cons_cons, List.zip_nil_right, List.mapM_cons, List.mapM_nil, bind_assoc,
    pure_bind]

theorem forward_same (hlayer : layer.Documented) (hskip : layer.skip_bias_add = false)
    (input : Tensor R) : SameOutcome ((init layer).forward input) (layer.forward input) := by
  by_cases haccepts : layer.Accepts input
  · obtain ⟨ds, hinput⟩ := haccepts.shape_eq
    obtain ⟨out, hforward, hwindow⟩ := hlayer.forward_spec hinput
    obtain ⟨ts, hts, hwindows⟩ := projections_spec layer.bias hinput layer.weight_shape
      layer.skip_bias_add 0 layer.output_sizes (by omega)
    obtain ⟨qkv_proj, hcat, hqkv⟩ := hwindows.cat (by rw [layer.output_sizes_eq]; simp)
    have hprojections : ([(init layer).q_weight, (init layer).k_weight, (init layer).v_weight].zip
        [(init layer).q_bias, (init layer).k_bias, (init layer).v_bias]).mapM (fun x =>
          linear input x.1 ((init layer).added x.2)) = .ok ts := by
      rw [weights_eq, biases_eq]
      exact hts
    have hbias : (init layer).output_bias = .ok none := by
      unfold output_bias
      rw [show (init layer).skip_bias_add = false from hskip]
      rfl
    rw [hforward, forward_eq, hprojections]
    dsimp only [bind, Except.bind]
    rw [hcat]
    dsimp only
    rw [hbias, hskip]
    exact .ok (sameOutput_returned _ (hqkv.same hwindow) .none)
  · rw [hlayer.forward_of_mismatch haccepts]
    unfold forward
    rw [show (init layer).q_weight = slice_rows layer.weight 0 _ from rfl,
      linear_of_mismatch_part haccepts]
    exact .error _ _

-- The biases that it concatenates are those that it does not add.
theorem forward_of_skip (hskip : layer.skip_bias_add = true) (input : Tensor R) :
    ∃ e, (init layer).forward input = .error e := by
  have hbias : (init layer).output_bias = .error .TypeError := by
    unfold output_bias added
    rw [show (init layer).skip_bias_add = true from hskip]
    rfl
  cases hforward : (init layer).forward input with
  | error e => exact ⟨e, rfl⟩
  | ok output =>
      unfold forward at hforward
      rw [hbias] at hforward
      obtain ⟨_, _, hforward⟩ := bind_eq_ok.mp hforward
      obtain ⟨_, _, hforward⟩ := bind_eq_ok.mp hforward
      obtain ⟨_, _, hforward⟩ := bind_eq_ok.mp hforward
      obtain ⟨_, _, hforward⟩ := bind_eq_ok.mp hforward
      cases hforward

end XlaQKVParallelLinear

namespace FusedLinear

-- The wrapper has something to concatenate.
def Concatenates : FusedLinear R → Prop
  | merged layer => layer.output_sizes ≠ []
  | qkv layer => layer.skip_bias_add = false

theorem partitioned_of_not_concatenates {fused : FusedLinear R} (h : ¬fused.Concatenates)
    (input : Tensor R) : ∃ e, fused.partitioned_forward input = .error e := by
  cases fused with
  | merged layer =>
      exact ⟨_, XlaMergedColumnParallelLinear.forward_of_no_sizes (not_not.mp h) input⟩
  | qkv layer =>
      exact XlaQKVParallelLinear.forward_of_skip (Bool.not_eq_false _ ▸ h) input

theorem partitioned_same_iff (fused : FusedLinear R) (hlayer : fused.layer.Documented)
    (input : Tensor R) :
    SameOutcome (fused.partitioned_forward input) (fused.layer.forward input) ↔
      fused.Concatenates ∨ ¬fused.layer.Accepts input := by
  constructor
  · intro hsame
    by_contra hnot
    push Not at hnot
    obtain ⟨hconcatenates, haccepts⟩ := hnot
    obtain ⟨e, he⟩ := partitioned_of_not_concatenates hconcatenates input
    obtain ⟨ds, hinput⟩ := haccepts.shape_eq
    obtain ⟨out, hout, -⟩ := hlayer.forward_spec hinput
    rw [he, hout] at hsame
    cases hsame
  · intro h
    by_cases hconcatenates : fused.Concatenates
    · cases fused with
      | merged layer =>
          exact XlaMergedColumnParallelLinear.forward_same hlayer hconcatenates input
      | qkv layer => exact XlaQKVParallelLinear.forward_same hlayer hconcatenates input
    · obtain ⟨e, he⟩ := partitioned_of_not_concatenates hconcatenates input
      rw [he, hlayer.forward_of_mismatch (h.resolve_left hconcatenates)]
      exact .error _ _

-- Three rows of one column, with a bias that is returned.
def biased : ColumnParallelLinear ℤ where
  weight := { shape := [3, 1], get := fun is => is.headD 0 + 1 }
  bias := some { shape := [3], get := fun is => is.headD 0 }
  skip_bias_add := true
  return_bias := true
  output_sizes := [1, 1, 1]
  input_size := 1
  forward := fun input => do
    let output ← linear input { shape := [3, 1], get := fun is => is.headD 0 + 1 } none
    return .with_bias output (some { shape := [3], get := fun is => is.headD 0 })
  weight_shape := rfl
  bias_shape := by
    rintro b ⟨⟩
    rfl

def biased_qkv : QKVParallelLinear ℤ where
  toColumnParallelLinear := biased
  head_size := 1
  v_head_size := 1
  num_heads := 1
  num_kv_heads := 1
  output_sizes_eq := rfl

def ones : Tensor ℤ where
  shape := [1]
  get := fun _ => 1

theorem partitioned_same_iff_biased :
    SameOutcome ((merged biased).partitioned_forward ones) (biased.forward ones) :=
  (partitioned_same_iff (merged biased) (fun _ => rfl) ones).mpr (.inl (List.cons_ne_nil _ _))

-- The projections of a layer that returns its bias.
theorem biased_qkv_raises : ¬∀ fused : FusedLinear ℤ, fused.layer.Documented →
    ∀ input, SameOutcome (fused.partitioned_forward input) (fused.layer.forward input) := by
  intro h
  have hsame := h (qkv biased_qkv) (fun _ => rfl) ones
  cases hsame

end FusedLinear

end Outcomes

end TTXla.VllmTT

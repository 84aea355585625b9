import TTXla.TTTorch.DtypePromotion.Bypassing

-- The whole pass: it stops after two rounds, and when what it removed was safe to remove.
namespace TTXla.TTTorch.DtypePromotion

open TTXla.Dataflow

variable {F : Type}

section Pass

variable {run : F → List Value → Option Value} {impure : F → Bool} {g : List (Node F)}

variable (run impure) in
theorem first_round (hg : SortedFrom [] g) :
    Settles run impure (fun n => n.is_bypassed (looked_through g)) g (reading run g)
      (bypass_casts impure g) := by
  have hσ : Reroutes (recorded g) g (bypass_casts impure g).2 := (visited_of_sorted hg).reroutes
  obtain ⟨h1, h2, h3, h4, h5, h6, h7, h8⟩ :=
    bypass_casts_settles impure hg (hσ.reading_reads run hg)
  refine ⟨h1, h2, h3, h4, h5, h6, fun c hc hb => h7 c hc ?_, fun c hc hgone => ?_⟩
  · rwa [hσ.is_bypassed_eq hg hc]
  · rw [← hσ.is_bypassed_eq hg hc.mem]
    exact h8 c hc hgone

theorem run_shape_prop_eq {r : List (Node F) × (Nat → Nat)} {bypassed : Node F → Bool}
    {E : Nat → Option Value} (h : Settles run impure bypassed g E r) :
    run_shape_prop run r.1 = if ∀ n ∈ r.1, (E n.name).isSome then
      some (r.1.map (Node.record E)) else none := by
  have heq := interpret_eq h
  have hmap : r.1.map (Node.record (interpret run r.1)) = r.1.map (Node.record E) := by
    refine List.map_congr_left fun n hn => ?_
    rw [Node.record, Node.record, heq n hn]
  have hall : (∀ n ∈ r.1, (interpret run r.1 n.name).isSome) ↔ ∀ n ∈ r.1, (E n.name).isSome :=
    forall₂_congr fun n hn => by rw [heq n hn]
  rw [run_shape_prop, hmap]
  exact if_congr hall rfl rfl

theorem values_iff (hg : SortedFrom [] g) :
    (∀ n ∈ (bypass_casts impure g).1, (reading run g n.name).isSome) ↔
      ∀ n, Live (is_impure impure) g n → (reading run g n.name).isSome := by
  have hfirst := first_round run impure hg
  constructor
  · intro h n hn
    obtain ⟨m, hm, hname⟩ := hfirst.live n hn
    rw [← hfirst.same n hn, ← hname]
    exact h m hm
  · intro h m hm
    obtain ⟨n, hn, hname, _⟩ := hfirst.nodes m hm
    rw [hname]
    exact h n hn

-- The second round finds no unwanted promotion.
theorem second_round (hlacks : g.any Node.lacks_original_aten = false)
    (fuel : Nat) {E : Nat → Option Value} {r : List (Node F) × (Nat → Nat)}
    (h : Settles run impure (fun n => n.is_bypassed (looked_through g)) g E r) :
    bypass_dtype_promotion_and_redundant_cast run impure (fuel + 1) (r.1.map (Node.record E)) =
      .ok (bypass_casts impure (r.1.map (Node.record E))) := by
  have hlacks' : (r.1.map (Node.record E)).any Node.lacks_original_aten = false := by
    rw [List.any_eq_false] at hlacks ⊢
    intro m' hm'
    obtain ⟨m, hm, rfl⟩ := List.mem_map.mp hm'
    obtain ⟨n, hn, _, hop⟩ := h.nodes m hm
    have hlack := hlacks n hn.mem
    rw [← lacks_replace r.2] at hlack
    simpa only [Node.lacks_original_aten, Node.replace, record_op, hop] using hlack
  have hunwanted : (r.1.map (Node.record E)).any Node.is_unwanted_dtype_promotion = false := by
    rw [List.any_eq_false]
    intro m' hm' hunw
    obtain ⟨m, hm, rfl⟩ := List.mem_map.mp hm'
    obtain ⟨n, hn, hname, hop⟩ := h.nodes m hm
    have hb : n.is_unwanted_dtype_promotion = true := by
      rw [← unwanted_of_op hop]
      exact hunw
    refine h.gone n hn.mem ?_ m hm hname
    rw [Node.is_bypassed, hb, Bool.true_or]
  rw [bypass_dtype_promotion_and_redundant_cast, hlacks', hunwanted]
  rfl

-- The operators take the values they are given once the promotions are gone.
def Accepts (run : F → List Value → Option Value) (impure : F → Bool) (g : List (Node F)) :
    Prop :=
  (∀ n ∈ g, n.lacks_original_aten = false) ∧
  ((∃ n ∈ g, n.is_unwanted_dtype_promotion = true) →
    ∀ n, Live (is_impure impure) g n → (reading run g n.name).isSome)

theorem pass_of_accepts (hg : SortedFrom [] g) (h : Accepts run impure g) :
    ∃ r, (∀ fuel, 2 ≤ fuel → bypass_dtype_promotion_and_redundant_cast run impure fuel g = .ok r) ∧
      Settles run impure (fun n => n.is_bypassed (looked_through g)) g (reading run g) r := by
  have hfirst := first_round run impure hg
  have hlacks : g.any Node.lacks_original_aten = false :=
    List.any_eq_false.mpr fun n hn => Bool.eq_false_iff.mp (h.1 n hn)
  by_cases hunwanted : g.any Node.is_unwanted_dtype_promotion = true
  · have hvalues := (values_iff hg).mpr (h.2 (List.any_eq_true.mp hunwanted))
    refine ⟨_, fun fuel hfuel => ?_, hfirst.propagated hg hvalues fun c _ hc => ?_⟩
    · obtain ⟨fuel, rfl⟩ := Nat.exists_eq_add_of_le' hfuel
      have hpropagated := run_shape_prop_eq hfirst
      rw [if_pos hvalues] at hpropagated
      rw [bypass_dtype_promotion_and_redundant_cast, hlacks, hunwanted]
      simp only [Bool.false_eq_true, if_false, if_true, hpropagated,
        second_round hlacks fuel hfirst, Except.map]
    · rw [Node.is_bypassed, hc, Bool.true_or]
  · refine ⟨_, fun fuel hfuel => ?_, hfirst⟩
    obtain ⟨fuel, rfl⟩ := Nat.exists_eq_add_of_le' hfuel
    rw [bypass_dtype_promotion_and_redundant_cast, hlacks, Bool.eq_false_iff.mpr hunwanted]
    rfl

theorem accepts_of_pass (hg : SortedFrom [] g) {r : List (Node F) × (Nat → Nat)}
    (h : bypass_dtype_promotion_and_redundant_cast run impure 2 g = .ok r) :
    Accepts run impure g := by
  rw [bypass_dtype_promotion_and_redundant_cast] at h
  split_ifs at h with hlacks hunwanted
  · refine ⟨fun n hn => ?_, fun _ => ?_⟩
    · exact Bool.eq_false_iff.mpr fun hn' => hlacks (List.any_eq_true.mpr ⟨n, hn, hn'⟩)
    · have hfirst := first_round run impure hg
      simp only [run_shape_prop_eq hfirst] at h
      split_ifs at h with hvalues
      exact (values_iff hg).mp hvalues
  · refine ⟨fun n hn => ?_, fun hex => absurd (List.any_eq_true.mpr hex) hunwanted⟩
    exact Bool.eq_false_iff.mpr fun hn' => hlacks (List.any_eq_true.mpr ⟨n, hn, hn'⟩)

end Pass

section Safety

variable {run : F → List Value → Option Value} {impure : F → Bool} {g : List (Node F)}

-- A cast that has no node of its own in the graph that is left.
def Removed (impure : F → Bool) (g r : List (Node F)) (c : Node F) (arg : Nat) (dtype : Dtype)
    (original_aten : Option String) : Prop :=
  Live (is_impure impure) g c ∧ c.op = .convert_element_type arg dtype original_aten ∧
    ∀ m ∈ r, m.name ≠ c.name

def Unrequested (source : Option Dtype) (dtype : Dtype) (original_aten : Option String) : Prop :=
  original_aten ≠ some "aten::_to_copy" ∧ ∃ s, source = some s ∧ s.promotes_to dtype

-- Each removed cast converts to the dtype its input has in the graph that is left, or is a
-- promotion that nobody requested, and only what uses such a promotion gets another dtype.
structure Safe (run : F → List Value → Option Value) (impure : F → Bool) (g : List (Node F))
    (r : List (Node F) × (Nat → Nat)) : Prop where
  casts : ∀ c arg dtype original_aten, Removed impure g r.1 c arg dtype original_aten →
    dtype_of (interpret run r.1) (r.2 arg) = some dtype ∨
      Unrequested (dtype_of (interpret run r.1) (r.2 arg)) dtype original_aten
  dtypes : ∀ n, Live (is_impure impure) g n →
    ¬ Downstream (fun c => ∃ arg dtype original_aten,
      Removed impure g r.1 c arg dtype original_aten ∧
        dtype_of (interpret run r.1) (r.2 arg) ≠ some dtype) g n →
    dtype_of (interpret run r.1) (r.2 n.name) = dtype_of (interpret run g) n.name

-- The casts that will be bypassed, by the values that reading them as their inputs gives.
def BypassesSafely (run : F → List Value → Option Value) (impure : F → Bool)
    (g : List (Node F)) : Prop :=
  ∀ c arg dtype original_aten, Live (is_impure impure) g c →
    c.op = .convert_element_type arg dtype original_aten →
    c.is_bypassed (looked_through g) = true →
      dtype_of (reading run g) arg = some dtype ∨
        Unrequested (dtype_of (reading run g) arg) dtype original_aten

theorem Settles.interpret_arg {bypassed : Node F → Bool} {r : List (Node F) × (Nat → Nat)}
    {E : Nat → Option Value} (h : Settles run impure bypassed g E r) {n : Node F}
    (hn : Live (is_impure impure) g n) : interpret run r.1 (r.2 n.name) = E n.name := by
  obtain ⟨m, hm, hname⟩ := h.live n hn
  rw [← hname, interpret_eq h m hm, hname, h.same n hn]

theorem Settles.dtype_arg {bypassed : Node F → Bool} {r : List (Node F) × (Nat → Nat)}
    {E : Nat → Option Value} (h : Settles run impure bypassed g E r) (hg : SortedFrom [] g)
    {n : Node F} (hn : Live (is_impure impure) g n) {a : Nat} (ha : a ∈ n.op.args) :
    dtype_of (interpret run r.1) (r.2 a) = dtype_of E a := by
  obtain hnil | ⟨m, hm, rfl⟩ := hg.args_mem hn.mem ha
  · exact absurd hnil List.not_mem_nil
  · rw [dtype_of, dtype_of, label_eq, h.interpret_arg (.used hm hn ha)]

theorem interpret_solves (hg : SortedFrom [] g) {n : Node F} (hn : n ∈ g) :
    interpret run g n.name = run_node run n (interpret run g) :=
  eval_solves (run_node_local run) hg (fun _ => none) n hn

-- What uses no bypassed promotion has the value it had before.
theorem Settles.unchanged {r : List (Node F) × (Nat → Nat)}
    (h : Settles run impure (fun n => n.is_bypassed (looked_through g)) g (reading run g) r)
    (hg : SortedFrom [] g) : ∀ n ∈ g, Live (is_impure impure) g n →
      ¬ Downstream (fun c => ∃ arg dtype original_aten,
        Removed impure g r.1 c arg dtype original_aten ∧
          dtype_of (interpret run r.1) (r.2 arg) ≠ some dtype) g n →
      reading run g n.name = interpret run g n.name := by
  intro n hn
  have hall := hg.induction
    (P := fun i => ∀ n ∈ g, n.name = i → Live (is_impure impure) g n →
      ¬ Downstream (fun c => ∃ arg dtype original_aten,
        Removed impure g r.1 c arg dtype original_aten ∧
          dtype_of (interpret run r.1) (r.2 arg) ≠ some dtype) g n →
      reading run g i = interpret run g i)
    (fun i hi => absurd hi List.not_mem_nil) fun n hn ih n' hn' hname hlive hnot => ?_
  · exact hall n hn n hn rfl
  · obtain rfl := hg.eq_of_label hn' hn hname
    have hargs : ∀ a ∈ n'.op.args, reading run g a = interpret run g a := by
      intro a ha
      obtain hnil | ⟨m, hm, rfl⟩ := hg.args_mem hn ha
      · exact absurd hnil List.not_mem_nil
      · exact ih _ ha m hm rfl (.used hm hlive ha) fun hdown => hnot (.uses hn hdown ha)
    rw [label_eq, reading_solves hg n' hn, interpret_solves hg hn]
    split_ifs with hb
    · obtain ⟨arg, dtype, original_aten, hop⟩ := cast_of_is_bypassed hb
      have harg : arg ∈ n'.op.args := by
        rw [hop]
        exact List.mem_cons_self
      have hdtype : dtype_of (interpret run g) arg = some dtype := by
        by_contra hne
        refine hnot (.changed hn ⟨arg, dtype, original_aten, ⟨hlive, hop, h.gone n' hn hb⟩, ?_⟩)
        rwa [h.dtype_arg hg hlive harg, dtype_of, hargs arg harg]
      simp only [Node.source, run_node, hop, convert_of_dtype hdtype]
      exact hargs arg harg
    · exact run_node_local run n' _ _ hargs

theorem Settles.safe_iff {r : List (Node F) × (Nat → Nat)}
    (h : Settles run impure (fun n => n.is_bypassed (looked_through g)) g (reading run g) r)
    (hg : SortedFrom [] g) : Safe run impure g r ↔ BypassesSafely run impure g := by
  constructor
  · intro hsafe c arg dtype original_aten hlive hop hb
    have harg : arg ∈ c.op.args := by
      rw [hop]
      exact List.mem_cons_self
    rw [← h.dtype_arg hg hlive harg]
    exact hsafe.casts c arg dtype original_aten ⟨hlive, hop, h.gone c hlive.mem hb⟩
  · intro hbypass
    refine ⟨fun c arg dtype original_aten ⟨hlive, hop, hgone⟩ => ?_, fun n hn hnot => ?_⟩
    · have harg : arg ∈ c.op.args := by
        rw [hop]
        exact List.mem_cons_self
      rw [h.dtype_arg hg hlive harg]
      obtain hb | hdtype := h.removed c hlive hgone
      · exact hbypass c arg dtype original_aten hlive hop hb
      · exact .inl (hdtype arg dtype original_aten hop)
    · rw [dtype_of, h.interpret_arg hn, h.unchanged hg n hn.mem hn hnot]
      rfl

theorem bypass_safe_iff (hg : SortedFrom [] g) :
    (∃ r, (∀ fuel, 2 ≤ fuel →
        bypass_dtype_promotion_and_redundant_cast run impure fuel g = .ok r) ∧
      Safe run impure g r) ↔ Accepts run impure g ∧ BypassesSafely run impure g := by
  constructor
  · rintro ⟨r, hpass, hsafe⟩
    have haccepts := accepts_of_pass hg (hpass 2 (Nat.le_refl 2))
    obtain ⟨r', hpass', hsettles⟩ := pass_of_accepts hg haccepts
    obtain rfl : r = r' := Except.ok.inj ((hpass 2 (Nat.le_refl 2)).symm.trans (hpass' 2 (Nat.le_refl 2)))
    exact ⟨haccepts, (hsettles.safe_iff hg).mp hsafe⟩
  · rintro ⟨haccepts, hbypass⟩
    obtain ⟨r, hpass, hsettles⟩ := pass_of_accepts hg haccepts
    exact ⟨r, hpass, (hsettles.safe_iff hg).mpr hbypass⟩

-- A `bfloat16` mean taken in `float32` and converted back, as it was asked for.
private def mean_graph : List (Node Unit) :=
  [⟨0, .placeholder (.tensor ⟨[4], .bfloat16⟩), some ⟨[4], .bfloat16⟩⟩,
    ⟨1, .convert_element_type 0 .float32 (some "aten::mean.dim"), some ⟨[4], .float32⟩⟩,
    ⟨2, .call_function () [1], some ⟨[4], .float32⟩⟩,
    ⟨3, .convert_element_type 2 .bfloat16 (some "aten::_to_copy"), some ⟨[4], .bfloat16⟩⟩,
    ⟨4, .output [3], none⟩]

private def keep_dtype (_ : Unit) (values : List Value) : Option Value := values.head?

theorem mean_bypassed_safely : ∃ r, (∀ fuel, 2 ≤ fuel →
      bypass_dtype_promotion_and_redundant_cast keep_dtype (fun _ => false) fuel mean_graph =
        .ok r) ∧ Safe keep_dtype (fun _ => false) mean_graph r := by
  have hvalues : ∀ n ∈ mean_graph, (reading keep_dtype mean_graph n.name).isSome := by decide
  refine (bypass_safe_iff (by decide)).mpr
    ⟨⟨by decide, fun _ n hn => hvalues n hn.mem⟩, fun c arg dtype original_aten hc hop hb => ?_⟩
  have hmem := hc.mem
  simp only [mean_graph, List.mem_cons, List.not_mem_nil, or_false] at hmem
  obtain rfl | rfl | rfl | rfl | rfl := hmem <;> cases hop
  · exact .inr ⟨by decide, .bfloat16, rfl, 16, rfl, 32, rfl, by decide⟩
  · exact absurd hb (by decide)

-- A quotient of integers: its decomposition converts them, which nobody requested.
private def quotient_graph : List (Node Unit) :=
  [⟨0, .placeholder (.tensor ⟨[4], .int64⟩), some ⟨[4], .int64⟩⟩,
    ⟨1, .convert_element_type 0 .float32 (some "aten::div.Tensor"), some ⟨[4], .float32⟩⟩,
    ⟨2, .call_function () [1], some ⟨[4], .float32⟩⟩,
    ⟨3, .output [2], none⟩]

theorem integer_promotion_bypassed : ¬ ∃ r, (∀ fuel, 2 ≤ fuel →
      bypass_dtype_promotion_and_redundant_cast keep_dtype (fun _ => false) fuel quotient_graph =
        .ok r) ∧ Safe keep_dtype (fun _ => false) quotient_graph r := by
  rintro ⟨r, hpass, hsafe⟩
  have hr := hpass 2 (Nat.le_refl 2)
  have hnames : ((bypass_dtype_promotion_and_redundant_cast keep_dtype (fun _ => false) 2
      quotient_graph).toOption.map fun r => r.1.map Node.name) = some [0, 2, 3] := by decide
  have hdtype : ((bypass_dtype_promotion_and_redundant_cast keep_dtype (fun _ => false) 2
      quotient_graph).toOption.bind fun r => dtype_of (interpret keep_dtype r.1) (r.2 0)) =
        some .int64 := by decide
  rw [hr] at hnames hdtype
  have hcast : Live (is_impure fun _ => false) quotient_graph
      ⟨1, .convert_element_type 0 .float32 (some "aten::div.Tensor"), some ⟨[4], .float32⟩⟩ :=
    .used (by simp [quotient_graph])
      (.used (m := ⟨3, .output [2], none⟩)
        (n := ⟨2, .call_function () [1], some ⟨[4], .float32⟩⟩) (by simp [quotient_graph])
        (.kept (by simp [quotient_graph]) rfl) (List.mem_singleton_self 2))
      (List.mem_singleton_self 1)
  have hgone : ∀ m ∈ r.1, m.name ≠ 1 := by
    intro m hm heq
    have hname : m.name ∈ r.1.map Node.name := List.mem_map_of_mem hm
    have hnames' : r.1.map Node.name = [0, 2, 3] := Option.some.inj hnames
    rw [hnames', heq] at hname
    exact absurd hname (by decide)
  obtain hsame | ⟨_, s, hs, a, ha, _⟩ := hsafe.casts _ _ _ _ ⟨hcast, rfl, hgone⟩
  · exact absurd (hsame.symm.trans hdtype) (by decide)
  · obtain rfl : s = .int64 := Option.some.inj (hs.symm.trans hdtype)
    cases ha

end Safety

end TTXla.TTTorch.DtypePromotion

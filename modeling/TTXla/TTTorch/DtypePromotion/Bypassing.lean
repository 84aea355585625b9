import TTXla.TTTorch.DtypePromotion.Rerouting

-- Which casts the pass removes, and when no value is computed in another dtype for it than
-- through a promotion that nobody requested.
namespace TTXla.TTTorch.DtypePromotion

open TTXla.Dataflow

variable {F : Type}

section Reading

-- The metadata recorded for the node that the uses of each name go to.
def looked_through (g : List (Node F)) : Nat → Option TensorMetadata :=
  eval (fun n env => if n.is_bypassed env = true then env n.source else n.tensor_meta) g
    fun _ => none

-- The values when each bypassed cast hands on what it is given.
def reading (run : F → List Value → Option Value) (g : List (Node F)) : Nat → Option Value :=
  eval (fun n env =>
    if n.is_bypassed (looked_through g) = true then env n.source else run_node run n env) g
    fun _ => none

variable {g : List (Node F)} {σ : Nat → Nat} {run : F → List Value → Option Value}

theorem looked_through_solves (hg : SortedFrom [] g) : ∀ n ∈ g, looked_through g n.name =
    if n.is_bypassed (looked_through g) = true then looked_through g n.source
    else n.tensor_meta := by
  refine fun n hn => eval_solves (fun n env env' hargs => ?_) hg _ n hn
  rw [is_bypassed_congr hargs]
  split_ifs with hb
  · exact hargs _ (source_mem_args hb)
  · rfl

theorem reading_solves (hg : SortedFrom [] g) :
    Reads run (looked_through g) g (reading run g) := by
  refine fun n hn => eval_solves (fun n env env' hargs => ?_) hg _ n hn
  split_ifs with hb
  · exact hargs _ (source_mem_args hb)
  · exact run_node_local run n env env' hargs

theorem recorded_of_mem (hg : SortedFrom [] g) {n : Node F} (hn : n ∈ g) :
    recorded g n.name = n.tensor_meta := by
  unfold recorded
  cases hfind : g.find? fun m => m.name = n.name with
  | none =>
      have hnot := List.find?_eq_none.mp hfind n hn
      simp at hnot
  | some m =>
      have hname := List.find?_some hfind
      simp only [decide_eq_true_eq] at hname
      rw [hg.eq_of_label (List.mem_of_find?_eq_some hfind) hn hname]
      rfl

theorem Reroutes.recorded_eq (hσ : Reroutes (recorded g) g σ) (hg : SortedFrom [] g) :
    ∀ n ∈ g, recorded g (σ n.name) = looked_through g n.name := by
  refine hg.induction (P := fun i => recorded g (σ i) = looked_through g i)
    (fun i hi => absurd hi List.not_mem_nil) fun n hn ih => ?_
  have hb : n.is_bypassed (recorded g ∘ σ) = n.is_bypassed (looked_through g) :=
    is_bypassed_congr ih
  rw [label_eq, looked_through_solves hg n hn, hσ n hn, hb]
  split_ifs with hb'
  · exact ih _ (source_mem_args hb')
  · exact recorded_of_mem hg hn

theorem Reroutes.is_bypassed_eq (hσ : Reroutes (recorded g) g σ) (hg : SortedFrom [] g)
    {n : Node F} (hn : n ∈ g) :
    n.is_bypassed (recorded g ∘ σ) = n.is_bypassed (looked_through g) := by
  refine is_bypassed_congr fun a ha => ?_
  obtain hnil | ⟨m, hm, rfl⟩ := hg.args_mem hn ha
  · exact absurd hnil List.not_mem_nil
  · exact hσ.recorded_eq hg m hm

variable (run) in
theorem Reroutes.reading_reads (hσ : Reroutes (recorded g) g σ) (hg : SortedFrom [] g) :
    Reads run (recorded g ∘ σ) g (reading run g) := by
  intro n hn
  rw [hσ.is_bypassed_eq hg hn]
  exact reading_solves hg n hn

end Reading

section Rounds

variable {run : F → List Value → Option Value} {impure : F → Bool} {g : List (Node F)}
  {σ : Nat → Nat} {E : Nat → Option Value}

def dtype_of (env : Nat → Option Value) (i : Nat) : Option Dtype :=
  (env i).bind Value.dtype

theorem convert_of_dtype {env : Nat → Option Value} {i : Nat} {dtype : Dtype}
    (h : dtype_of env i = some dtype) :
    (env i).bind (convert_element_type dtype) = env i := by
  unfold dtype_of at h
  cases hv : env i with
  | none => rfl
  | some v =>
      rw [hv] at h
      cases v with
      | tensor m =>
          obtain rfl : m.dtype = dtype := Option.some.inj h
          rfl
      | tuple vs => exact absurd h (Option.some_ne_none dtype).symm
      | scalar => exact absurd h (Option.some_ne_none dtype).symm

theorem tensor_of_convert {v : Option Value} {dtype : Dtype}
    (h : (v.bind (convert_element_type dtype)).isSome) : ∃ t, v = some (.tensor t) := by
  cases v with
  | none => exact absurd h Bool.false_ne_true
  | some v =>
      cases v with
      | tensor t => exact ⟨t, rfl⟩
      | tuple vs => exact absurd h Bool.false_ne_true
      | scalar => exact absurd h Bool.false_ne_true

theorem visited_of_sorted (hg : SortedFrom [] g) :
    Visited (recorded g) [] g id (visit (recorded g) g id) :=
  visit_visited hg (fun _ hi => absurd hi List.not_mem_nil) fun _ _ => rfl

-- `E` evaluates the graph that is left, and agrees with it on what took over each live node.
structure Settles (run : F → List Value → Option Value) (impure : F → Bool)
    (bypassed : Node F → Bool) (g : List (Node F)) (E : Nat → Option Value)
    (r : List (Node F) × (Nat → Nat)) : Prop where
  sorted : SortedFrom [] r.1
  solves : Solves (run_node run) r.1 E
  nodes : ∀ m ∈ r.1, ∃ n, Live (is_impure impure) g n ∧ m.name = n.name ∧
    n.op.replace r.2 = m.op
  all_live : ∀ m ∈ r.1, Live (is_impure impure) r.1 m
  live : ∀ n, Live (is_impure impure) g n → ∃ m ∈ r.1, m.name = r.2 n.name
  same : ∀ n, Live (is_impure impure) g n → E (r.2 n.name) = E n.name
  gone : ∀ c ∈ g, bypassed c = true → ∀ m ∈ r.1, m.name ≠ c.name
  removed : ∀ c, Live (is_impure impure) g c → (∀ m ∈ r.1, m.name ≠ c.name) →
    bypassed c = true ∨ ∀ arg dtype original_aten,
      c.op = .convert_element_type arg dtype original_aten → dtype_of E arg = some dtype

theorem Settles.same_arg {bypassed : Node F → Bool} {r : List (Node F) × (Nat → Nat)}
    (h : Settles run impure bypassed g E r) (hg : SortedFrom [] g) {n : Node F}
    (hn : Live (is_impure impure) g n) {a : Nat} (ha : a ∈ n.op.args) : E (r.2 a) = E a := by
  obtain hnil | ⟨m, hm, rfl⟩ := hg.args_mem hn.mem ha
  · exact absurd hnil List.not_mem_nil
  · exact h.same m (.used hm hn ha)

variable (impure) in
theorem bypass_casts_settles (hg : SortedFrom [] g)
    (hE : Reads run (recorded g ∘ (bypass_casts impure g).2) g E) :
    Settles run impure (fun n => n.is_bypassed (recorded g ∘ (bypass_casts impure g).2)) g E
      (bypass_casts impure g) := by
  obtain ⟨hnodes, _, hσ, hsorted⟩ := visited_of_sorted hg
  have hfst : (bypass_casts impure g).1 =
      eliminate (is_impure impure) (g.map (Node.replace (bypass_casts impure g).2)) := by
    rw [bypass_casts, hnodes]
  have hsorted' : SortedFrom [] (g.map (Node.replace (bypass_casts impure g).2)) := by
    rw [hnodes] at hsorted
    exact hsorted
  have hσ' : Reroutes (recorded g) g (bypass_casts impure g).2 := hσ
  have hmem : ∀ m, m ∈ (bypass_casts impure g).1 ↔
      Live (is_impure impure) (g.map (Node.replace (bypass_casts impure g).2)) m := by
    rw [hfst]
    exact mem_eliminate_iff hsorted'
  refine ⟨?_, ?_, fun m hm => ?_, fun m hm => ?_, fun n hn => ?_,
    fun n hn => hE.same hσ' hg n hn.mem,
    fun c hc hb m hm heq => ?_, fun c hc hgone => ?_⟩
  · rw [hfst]
    exact eliminate_sorted hsorted'
  · rw [hfst]
    exact hE.solves hσ' hg hsorted'
  · obtain ⟨n, _, rfl, hlive⟩ := hσ'.live_of_replace hg ((hmem m).mp hm)
    exact ⟨n, hlive, rfl, rfl⟩
  · have hlive := ((hmem m).mp hm).eliminate hsorted'
    rwa [hfst]
  · obtain ⟨m, _, hname, hlive⟩ := hσ'.live_replace hg hn
    exact ⟨_, (hmem _).mpr hlive, hname⟩
  · obtain ⟨n, hn, rfl, hlive⟩ := hσ'.live_of_replace hg ((hmem m).mp hm)
    obtain rfl := hg.eq_of_label hn hc heq
    exact hσ'.not_bypassed_of_live hg hn ((hmem _).mp hm) hb
  · refine .inl (by_contra fun hb => ?_)
    obtain ⟨m, _, hname, hlive⟩ := hσ'.live_replace hg hc
    refine hgone _ ((hmem _).mpr hlive) ?_
    rw [replace_name, hname, hσ' c hc.mem, if_neg hb]

@[simp] theorem record_name (env : Nat → Option Value) (n : Node F) :
    (n.record env).name = n.name := rfl

@[simp] theorem record_op (env : Nat → Option Value) (n : Node F) :
    (n.record env).op = n.op := rfl

theorem interpret_eq {bypassed : Node F → Bool} {r : List (Node F) × (Nat → Nat)}
    (h : Settles run impure bypassed g E r) : ∀ m ∈ r.1, interpret run r.1 m.name = E m.name :=
  Solves.unique (run_node_local run) h.sorted
    (eval_solves (run_node_local run) h.sorted fun _ => none) h.solves
    fun _ hi => absurd hi List.not_mem_nil

-- After the metadata is propagated a cast that is bypassed does nothing.
theorem reads_of_propagated {h : List (Node F)} {σ : Nat → Nat} (hsorted : SortedFrom [] h)
    (hE : Solves (run_node run) h E) (hvalues : ∀ n ∈ h, (E n.name).isSome)
    (hunwanted : ∀ n ∈ h, n.is_unwanted_dtype_promotion = false)
    (hmetas : ∀ n ∈ h, ∀ t, E n.name = some (.tensor t) → n.tensor_meta = some t)
    (hσ : Reroutes (recorded h) h σ) :
    Reads run (recorded h ∘ σ) h E ∧
      ∀ n ∈ h, n.is_bypassed (recorded h ∘ σ) = true → ∀ arg dtype original_aten,
        n.op = .convert_element_type arg dtype original_aten → dtype_of E arg = some dtype := by
  have hdtype : ∀ n ∈ h, (∀ a ∈ n.op.args, E (σ a) = E a) →
      n.is_bypassed (recorded h ∘ σ) = true → ∀ arg dtype original_aten,
        n.op = .convert_element_type arg dtype original_aten → dtype_of E arg = some dtype := by
    intro n hn hsame hb arg dtype original_aten hop
    have harg : arg ∈ n.op.args := by
      rw [hop]
      exact List.mem_cons_self
    obtain hnil | ⟨m, hm, rfl⟩ := hsorted.args_mem hn harg
    · exact absurd hnil List.not_mem_nil
    obtain ⟨k, hk, hname, _⟩ := hσ.exists_node hsorted m hm
    have hvalue : E n.name = (E m.name).bind (convert_element_type dtype) := by
      have hn' := hE n hn
      simp only [run_node, hop] at hn'
      exact hn'
    obtain ⟨t, ht⟩ := tensor_of_convert (hvalue ▸ hvalues n hn)
    have hk' : recorded h (σ m.name) = some t := by
      rw [← hname, recorded_of_mem hsorted hk]
      refine hmetas k hk t ?_
      rw [hname, ← ht]
      exact hsame _ harg
    rw [Node.is_bypassed, hunwanted n hn, Bool.false_or, Node.is_redundant_cast, hop] at hb
    simp only [decide_eq_true_eq, Function.comp_apply, label_eq, hk', Option.map_some] at hb
    rw [dtype_of, label_eq, ht]
    exact hb
  have hread : ∀ n ∈ h, (∀ a ∈ n.op.args, E (σ a) = E a) →
      n.is_bypassed (recorded h ∘ σ) = true → E n.name = E n.source := by
    intro n hn hsame hb
    obtain ⟨arg, dtype, original_aten, hop⟩ := cast_of_is_bypassed hb
    have hn' := hE n hn
    simp only [run_node, hop] at hn'
    rw [← label_eq, hn', convert_of_dtype (hdtype n hn hsame hb _ _ _ hop), Node.source, hop]
  have hsame : ∀ n ∈ h, E (σ n.name) = E n.name := by
    refine hsorted.induction (P := fun i => E (σ i) = E i)
      (fun i hi => absurd hi List.not_mem_nil) fun n hn ih => ?_
    rw [label_eq, hσ n hn]
    split_ifs with hb
    · rw [hread n hn ih hb]
      exact ih _ (source_mem_args hb)
    · rfl
  have hargs : ∀ n ∈ h, ∀ a ∈ n.op.args, E (σ a) = E a := by
    intro n hn a ha
    obtain hnil | ⟨m, hm, rfl⟩ := hsorted.args_mem hn ha
    · exact absurd hnil List.not_mem_nil
    · exact hsame m hm
  refine ⟨fun n hn => ?_, fun n hn => hdtype n hn (hargs n hn)⟩
  split_ifs with hb
  · exact hread n hn (hargs n hn) hb
  · exact hE n hn

theorem replace_replace (σ τ : Nat → Nat) (op : Op F) :
    (op.replace σ).replace τ = op.replace (τ ∘ σ) := by
  cases op <;> simp [Op.replace]

theorem unwanted_of_op {n m : Node F} {σ : Nat → Nat} (h : n.op.replace σ = m.op) :
    m.is_unwanted_dtype_promotion = n.is_unwanted_dtype_promotion := by
  rw [← is_unwanted_replace σ n]
  simp only [Node.is_unwanted_dtype_promotion, Node.replace, h]

theorem Settles.propagated {bypassed : Node F → Bool} {r : List (Node F) × (Nat → Nat)}
    (hg : SortedFrom [] g) (h : Settles run impure bypassed g E r)
    (hvalues : ∀ n ∈ r.1, (E n.name).isSome)
    (hunwanted : ∀ c ∈ g, c.is_unwanted_dtype_promotion = true → bypassed c = true) :
    Settles run impure bypassed g E
      ((bypass_casts impure (r.1.map (Node.record E))).1,
        (bypass_casts impure (r.1.map (Node.record E))).2 ∘ r.2) := by
  have hsorted : SortedFrom [] (r.1.map (Node.record E)) :=
    h.sorted.map (fun n => rfl) fun n => rfl
  have hlive : ∀ m ∈ r.1, Live (is_impure impure) (r.1.map (Node.record E)) (m.record E) :=
    fun m hm => (h.all_live m hm).map (f := Node.record E) (fun n => rfl) (fun n => rfl)
      fun n => rfl
  obtain ⟨hreads, hbypassed⟩ :
      Reads run (recorded (r.1.map (Node.record E)) ∘
          (bypass_casts impure (r.1.map (Node.record E))).2) (r.1.map (Node.record E)) E ∧ _ := by
    refine reads_of_propagated hsorted (fun n' hn' => ?_) (fun n' hn' => ?_) (fun n' hn' => ?_)
      (fun n' hn' t ht => ?_) (visited_of_sorted hsorted).reroutes
    · obtain ⟨n, hn, rfl⟩ := List.mem_map.mp hn'
      exact h.solves n hn
    · obtain ⟨n, hn, rfl⟩ := List.mem_map.mp hn'
      exact hvalues n hn
    · obtain ⟨m, hm, rfl⟩ := List.mem_map.mp hn'
      obtain ⟨n, hn, hname, hop⟩ := h.nodes m hm
      refine Bool.eq_false_iff.mpr fun hunw => ?_
      have hunw' : n.is_unwanted_dtype_promotion = true := by
        rw [← unwanted_of_op hop]
        exact hunw
      exact h.gone n hn.mem (hunwanted n hn.mem hunw') m hm hname
    · obtain ⟨n, hn, rfl⟩ := List.mem_map.mp hn'
      rw [record_name] at ht
      simp only [Node.record, ht, Option.bind_some, Value.tensor_meta, Option.some_or]
  have hsecond := bypass_casts_settles impure hsorted hreads
  refine ⟨hsecond.sorted, hsecond.solves, fun m hm => ?_, hsecond.all_live, fun n hn => ?_,
    fun n hn => ?_, fun c hc hb m hm => ?_, fun c hc hgone => ?_⟩
  · obtain ⟨n', hn', hname, hop⟩ := hsecond.nodes m hm
    obtain ⟨n, hn, rfl⟩ := List.mem_map.mp hn'.mem
    obtain ⟨k, hk, hname', hop'⟩ := h.nodes n hn
    refine ⟨k, hk, hname.trans hname', ?_⟩
    rw [← hop, record_op, ← hop', replace_replace]
  · obtain ⟨m, hm, hname⟩ := h.live n hn
    obtain ⟨k, hk, hname'⟩ := hsecond.live _ (hlive m hm)
    refine ⟨k, hk, ?_⟩
    rw [hname', record_name, hname]
    rfl
  · obtain ⟨m, hm, hname⟩ := h.live n hn
    have hsame := hsecond.same _ (hlive m hm)
    rw [record_name, hname, h.same n hn] at hsame
    exact hsame
  · obtain ⟨n', hn', hname, _⟩ := hsecond.nodes m hm
    obtain ⟨n, hn, rfl⟩ := List.mem_map.mp hn'.mem
    rw [hname]
    exact h.gone c hc hb n hn
  · by_cases hfirst : ∀ m ∈ r.1, m.name ≠ c.name
    · exact h.removed c hc hfirst
    · simp only [not_forall, not_not] at hfirst
      obtain ⟨m, hm, hname⟩ := hfirst
      obtain ⟨n, hn, hname', hop'⟩ := h.nodes m hm
      obtain rfl := hg.eq_of_label hn.mem hc.mem (hname'.symm.trans hname)
      refine .inr fun arg dtype original_aten hop => ?_
      have hm' : (m.record E).op = .convert_element_type (r.2 arg) dtype original_aten := by
        rw [record_op, ← hop', hop, Op.replace]
      have hdtype : dtype_of E (r.2 arg) = some dtype := by
        obtain hb | hsame := hsecond.removed _ (hlive m hm) fun k hk => hname ▸ hgone k hk
        · exact hbypassed _ (List.mem_map_of_mem hm) hb _ _ _ hm'
        · exact hsame _ _ _ hm'
      have harg : arg ∈ n.op.args := by
        rw [hop]
        exact List.mem_cons_self
      rw [dtype_of, ← h.same_arg hg hn harg]
      exact hdtype

end Rounds

end TTXla.TTTorch.DtypePromotion

import TTXla.Lib.Options
import TTXla.TTTorch.DtypePromotion

-- What one visit of the nodes replaces, and what the graph it leaves evaluates to.
namespace TTXla.TTTorch.DtypePromotion

open TTXla.Dataflow

variable {F : Type}

section Nodes

variable {σ : Nat → Nat} {n : Node F} {metas : Nat → Option TensorMetadata}

@[simp] theorem label_eq (n : Node F) : DataNode.label n = n.name := rfl

@[simp] theorem args_eq (n : Node F) : DataNode.args n = n.op.args := rfl

@[simp] theorem replace_name (σ : Nat → Nat) (n : Node F) : (n.replace σ).name = n.name := rfl

@[simp] theorem args_replace (σ : Nat → Nat) (n : Node F) :
    (n.replace σ).op.args = n.op.args.map σ := by
  cases hop : n.op <;> simp [Node.replace, Op.replace, Op.args, hop]

@[simp] theorem is_impure_replace (impure : F → Bool) (σ : Nat → Nat) (n : Node F) :
    is_impure impure (n.replace σ) = is_impure impure n := by
  cases hop : n.op <;> simp [Node.replace, Op.replace, is_impure, hop]

@[simp] theorem is_unwanted_replace (σ : Nat → Nat) (n : Node F) :
    (n.replace σ).is_unwanted_dtype_promotion = n.is_unwanted_dtype_promotion := by
  cases hop : n.op <;> simp [Node.replace, Op.replace, Node.is_unwanted_dtype_promotion, hop]

@[simp] theorem lacks_replace (σ : Nat → Nat) (n : Node F) :
    (n.replace σ).lacks_original_aten = n.lacks_original_aten := by
  cases hop : n.op with
  | convert_element_type arg dtype original_aten =>
      cases original_aten <;> simp [Node.replace, Op.replace, Node.lacks_original_aten, hop]
  | _ => simp [Node.replace, Op.replace, Node.lacks_original_aten, hop]

@[simp] theorem is_bypassed_replace (metas : Nat → Option TensorMetadata) (σ : Nat → Nat)
    (n : Node F) : (n.replace σ).is_bypassed metas = n.is_bypassed (metas ∘ σ) := by
  cases hop : n.op <;>
    simp [Node.replace, Op.replace, Node.is_bypassed, Node.is_unwanted_dtype_promotion,
      Node.is_redundant_cast, hop]

theorem is_bypassed_congr {metas metas' : Nat → Option TensorMetadata}
    (h : ∀ a ∈ n.op.args, metas a = metas' a) : n.is_bypassed metas = n.is_bypassed metas' := by
  cases hop : n.op with
  | convert_element_type arg dtype original_aten =>
      rw [hop] at h
      simp only [Node.is_bypassed, Node.is_redundant_cast, hop, h arg List.mem_cons_self]
  | _ => simp only [Node.is_bypassed, Node.is_redundant_cast, hop]

theorem replace_congr {τ : Nat → Nat} (h : ∀ a ∈ n.op.args, σ a = τ a) :
    n.replace σ = n.replace τ := by
  obtain ⟨name, op, tensor_meta⟩ := n
  cases op with
  | placeholder v => rfl
  | get_attr v => rfl
  | convert_element_type arg dtype original_aten =>
      simp only [Node.replace, Op.replace, h arg List.mem_cons_self]
  | call_function target args =>
      have hargs : args.map σ = args.map τ := List.map_congr_left h
      simp only [Node.replace, Op.replace, hargs]
  | output args =>
      have hargs : args.map σ = args.map τ := List.map_congr_left h
      simp only [Node.replace, Op.replace, hargs]

theorem cast_of_is_bypassed (h : n.is_bypassed metas = true) :
    ∃ arg dtype original_aten, n.op = .convert_element_type arg dtype original_aten := by
  cases hop : n.op with
  | convert_element_type arg dtype original_aten => exact ⟨arg, dtype, original_aten, rfl⟩
  | _ =>
      simp [Node.is_bypassed, Node.is_unwanted_dtype_promotion, Node.is_redundant_cast, hop] at h

theorem args_of_is_bypassed (h : n.is_bypassed metas = true) : n.op.args = [n.source] := by
  obtain ⟨arg, dtype, original_aten, hop⟩ := cast_of_is_bypassed h
  rw [Node.source, hop, Op.args]

theorem source_mem_args (h : n.is_bypassed metas = true) : n.source ∈ n.op.args := by
  rw [args_of_is_bypassed h]
  exact List.mem_singleton_self _

theorem source_replace (h : n.is_bypassed metas = true) :
    (n.replace σ).source = σ n.source := by
  obtain ⟨arg, dtype, original_aten, hop⟩ := cast_of_is_bypassed h
  simp only [Node.source, Node.replace, hop, Op.replace]

theorem pure_of_is_bypassed (impure : F → Bool) (h : n.is_bypassed metas = true) :
    is_impure impure n = false := by
  obtain ⟨arg, dtype, original_aten, hop⟩ := cast_of_is_bypassed h
  rw [is_impure, hop]

variable (run : F → List Value → Option Value)

theorem run_node_local : Local (run_node (F := F) run) := by
  intro n env env' hargs
  simp only [args_eq] at hargs
  cases hop : n.op with
  | placeholder v => simp only [run_node, hop]
  | get_attr v => simp only [run_node, hop]
  | convert_element_type arg dtype original_aten =>
      rw [hop] at hargs
      simp only [run_node, hop, hargs arg List.mem_cons_self]
  | call_function target args =>
      rw [hop] at hargs
      have hvalues : args.mapM env = args.mapM env' := Options.mapM_congr hargs
      simp only [run_node, hop, hvalues]
  | output args =>
      rw [hop] at hargs
      have hvalues : args.mapM env = args.mapM env' := Options.mapM_congr hargs
      simp only [run_node, hop, hvalues]

theorem run_node_replace (σ : Nat → Nat) (n : Node F) (env : Nat → Option Value) :
    run_node run (n.replace σ) env = run_node run n (env ∘ σ) := by
  cases hop : n.op <;>
    simp [run_node, Node.replace, Op.replace, hop, List.mapM_map]

end Nodes

section Visit

variable {metas : Nat → Option TensorMetadata} {σ : Nat → Nat} {seen : List Nat}
  {ns g : List (Node F)}

-- The uses of a bypassed cast go where those of its source go, other uses stay.
def Reroutes (metas : Nat → Option TensorMetadata) (g : List (Node F)) (σ : Nat → Nat) : Prop :=
  ∀ n ∈ g, σ n.name = if n.is_bypassed (metas ∘ σ) = true then σ n.source else n.name

structure Visited (metas : Nat → Option TensorMetadata) (seen : List Nat) (ns : List (Node F))
    (σ : Nat → Nat) (r : List (Node F) × (Nat → Nat)) : Prop where
  nodes : r.1 = ns.map (Node.replace r.2)
  agree : ∀ i ∈ seen, r.2 i = σ i
  reroutes : Reroutes metas ns r.2
  sorted : SortedFrom seen r.1

theorem visit_visited (h : SortedFrom seen ns) (hseen : ∀ i ∈ seen, σ i ∈ seen)
    (hid : ∀ i, i ∉ seen → σ i = i) : Visited metas seen ns σ (visit metas ns σ) := by
  induction ns generalizing seen σ with
  | nil => exact ⟨rfl, fun _ _ => rfl, fun _ hn => absurd hn List.not_mem_nil, trivial⟩
  | cons n ns ih =>
      obtain ⟨hargs, hnew, hrest⟩ := h
      simp only [args_eq, label_eq] at hargs hnew hrest
      let τ := if (n.replace σ).is_bypassed metas = true then
        Function.update σ n.name (n.replace σ).source else σ
      have hτ : ∀ i, i ≠ n.name → τ i = σ i := by
        intro i hi
        simp only [τ]
        split_ifs
        · exact Function.update_of_ne hi _ _
        · rfl
      have hτn : τ n.name =
          if n.is_bypassed (metas ∘ σ) = true then σ n.source else n.name := by
        simp only [τ, is_bypassed_replace]
        split_ifs with hb
        · rw [Function.update_self, source_replace hb]
        · exact hid _ hnew
      have hne : ∀ {i}, i ∈ seen → i ≠ n.name := fun hi => ne_of_mem_of_not_mem hi hnew
      have hvisited : Visited metas (n.name :: seen) ns τ (visit metas ns τ) := by
        refine ih hrest (fun i hi => ?_) fun i hi => ?_
        · obtain rfl | hi := List.mem_cons.mp hi
          · rw [hτn]
            split_ifs with hb
            · exact List.mem_cons_of_mem _ (hseen _ (hargs _ (source_mem_args hb)))
            · exact List.mem_cons_self
          · rw [hτ i (hne hi)]
            exact List.mem_cons_of_mem _ (hseen i hi)
        · rw [List.mem_cons, not_or] at hi
          rw [hτ i hi.1, hid i hi.2]
      obtain ⟨hnodes, hagree, hreroutes, hsorted⟩ := hvisited
      have hσ : ∀ i ∈ seen, (visit metas ns τ).2 i = σ i := fun i hi =>
        (hagree i (List.mem_cons_of_mem _ hi)).trans (hτ i (hne hi))
      have hreplace : n.replace σ = n.replace (visit metas ns τ).2 :=
        replace_congr fun a ha => (hσ a (hargs a ha)).symm
      refine ⟨?_, hσ, ?_, ?_⟩
      · exact congrArg₂ List.cons hreplace hnodes
      · refine List.forall_mem_cons.mpr ⟨?_, hreroutes⟩
        have hbypassed : n.is_bypassed (metas ∘ (visit metas ns τ).2) =
            n.is_bypassed (metas ∘ σ) :=
          is_bypassed_congr fun a ha => congrArg metas (hσ a (hargs a ha))
        show (visit metas ns τ).2 n.name =
          if n.is_bypassed (metas ∘ (visit metas ns τ).2) = true
          then (visit metas ns τ).2 n.source else n.name
        rw [hagree _ List.mem_cons_self, hτn, hbypassed]
        split_ifs with hb
        · exact (hσ _ (hargs _ (source_mem_args hb))).symm
        · rfl
      · refine ⟨?_, hnew, hsorted⟩
        intro a ha
        rw [args_eq, args_replace] at ha
        obtain ⟨b, hb, rfl⟩ := List.mem_map.mp ha
        exact hseen b (hargs b hb)

end Visit

section Rerouted

variable {metas : Nat → Option TensorMetadata} {σ : Nat → Nat} {g : List (Node F)}
  {run : F → List Value → Option Value} {impure : F → Bool} {E : Nat → Option Value}

theorem source_mem (hg : SortedFrom [] g) {n : Node F} (hn : n ∈ g)
    (hb : n.is_bypassed metas = true) : ∃ m ∈ g, m.name = n.source := by
  obtain hnil | hm := hg.args_mem hn (source_mem_args hb)
  · exact absurd hnil List.not_mem_nil
  · exact hm

-- Uses go to nodes that are not bypassed.
theorem Reroutes.exists_node (hσ : Reroutes metas g σ) (hg : SortedFrom [] g) :
    ∀ n ∈ g, ∃ m ∈ g, m.name = σ n.name ∧ m.is_bypassed (metas ∘ σ) = false := by
  refine hg.induction (P := fun i => ∃ m ∈ g, m.name = σ i ∧ m.is_bypassed (metas ∘ σ) = false)
    (fun i hi => absurd hi List.not_mem_nil) fun n hn ih => ?_
  have hroute := hσ n hn
  rw [label_eq, hroute]
  split_ifs with hb
  · exact ih n.source (source_mem_args hb)
  · exact ⟨n, hn, rfl, Bool.eq_false_iff.mpr hb⟩

theorem Reroutes.name_notMem (hσ : Reroutes metas g σ) (hg : SortedFrom [] g) {n m : Node F}
    (hn : n ∈ g) (hm : m ∈ g) (hb : n.is_bypassed (metas ∘ σ) = true) : σ m.name ≠ n.name := by
  intro heq
  obtain ⟨k, hk, hname, hnot⟩ := hσ.exists_node hg m hm
  rw [hg.eq_of_label hk hn (hname.trans heq), hb] at hnot
  exact absurd hnot (by decide)

theorem Reroutes.live_replace (hσ : Reroutes metas g σ) (hg : SortedFrom [] g) {n : Node F}
    (hlive : Live (is_impure impure) g n) :
    ∃ m ∈ g, m.name = σ n.name ∧
      Live (is_impure impure) (g.map (Node.replace σ)) (m.replace σ) := by
  induction hlive with
  | @kept n hn hkept =>
      refine ⟨n, hn, ?_, .kept (List.mem_map_of_mem hn) (by rwa [is_impure_replace])⟩
      rw [hσ n hn, if_neg]
      intro hb
      rw [pure_of_is_bypassed impure hb] at hkept
      exact absurd hkept (by decide)
  | @used n m hn hm huse ih =>
      obtain ⟨k, hk, hname, hlive⟩ := ih
      have hroute := hσ m hm.mem
      split_ifs at hroute with hb
      · -- a bypassed cast stands for its only argument
        rw [args_eq, args_of_is_bypassed hb, List.mem_singleton] at huse
        exact ⟨k, hk, by rw [hname, hroute, ← huse, label_eq], hlive⟩
      · obtain ⟨k', hk', hname', _⟩ := hσ.exists_node hg n hn
        obtain rfl : k = m := hg.eq_of_label hk hm.mem (hname.trans hroute)
        refine ⟨k', hk', hname', .used (List.mem_map_of_mem hk') hlive ?_⟩
        rw [label_eq, replace_name, hname', args_eq, args_replace]
        exact List.mem_map_of_mem huse

theorem Reroutes.live_source (hσ : Reroutes metas g σ) (hg : SortedFrom [] g) :
    ∀ n ∈ g, Live (is_impure impure) g n → ∀ m ∈ g, m.name = σ n.name →
      Live (is_impure impure) g m := by
  have hall := hg.induction
    (P := fun i => ∀ n ∈ g, n.name = i → Live (is_impure impure) g n → ∀ m ∈ g, m.name = σ i →
      Live (is_impure impure) g m)
    (fun i hi => absurd hi List.not_mem_nil) fun n hn ih n' hn' hname hlive m hm hroute => ?_
  · exact fun n hn => hall n hn n hn rfl
  · obtain rfl := hg.eq_of_label hn' hn hname
    rw [label_eq, hσ n' hn] at hroute
    split_ifs at hroute with hb
    · obtain ⟨k, hk, hsource⟩ := source_mem hg hn hb
      refine ih _ (source_mem_args hb) k hk hsource (.used hk hlive ?_) m hm hroute
      rw [label_eq, hsource]
      exact source_mem_args hb
    · rwa [hg.eq_of_label hm hn hroute]

theorem Reroutes.live_of_replace (hσ : Reroutes metas g σ) (hg : SortedFrom [] g)
    {n' : Node F} (hlive : Live (is_impure impure) (g.map (Node.replace σ)) n') :
    ∃ n ∈ g, n' = n.replace σ ∧ Live (is_impure impure) g n := by
  induction hlive with
  | @kept n' hn' hkept =>
      obtain ⟨n, hn, rfl⟩ := List.mem_map.mp hn'
      rw [is_impure_replace] at hkept
      exact ⟨n, hn, rfl, .kept hn hkept⟩
  | @used n' m' hn' hm' huse ih =>
      obtain ⟨n, hn, rfl⟩ := List.mem_map.mp hn'
      obtain ⟨m, hm, rfl, hlive⟩ := ih
      rw [args_eq, args_replace, label_eq, replace_name] at huse
      obtain ⟨a, ha, hroute⟩ := List.mem_map.mp huse
      obtain hnil | ⟨b, hb, rfl⟩ := hg.args_mem hm ha
      · exact absurd hnil List.not_mem_nil
      · exact ⟨n, hn, rfl,
          hσ.live_source hg b hb (.used hb hlive ha) n hn hroute.symm⟩

theorem Reroutes.not_bypassed_of_live (hσ : Reroutes metas g σ) (hg : SortedFrom [] g)
    {n : Node F} (hn : n ∈ g)
    (hlive : Live (is_impure impure) (g.map (Node.replace σ)) (n.replace σ)) :
    ¬ n.is_bypassed (metas ∘ σ) = true := by
  intro hb
  cases hlive with
  | kept _ hkept =>
      rw [is_impure_replace, pure_of_is_bypassed impure hb] at hkept
      exact absurd hkept (by decide)
  | used _ hm huse =>
      obtain ⟨m, hm', rfl, _⟩ := hσ.live_of_replace hg hm
      rw [args_eq, args_replace, label_eq, replace_name] at huse
      obtain ⟨a, ha, hroute⟩ := List.mem_map.mp huse
      obtain hnil | ⟨b, hb', rfl⟩ := hg.args_mem hm' ha
      · exact absurd hnil List.not_mem_nil
      · exact hσ.name_notMem hg hn hb' hb hroute

def Reads (run : F → List Value → Option Value) (metas : Nat → Option TensorMetadata)
    (g : List (Node F)) (E : Nat → Option Value) : Prop :=
  ∀ n ∈ g, E n.name = if n.is_bypassed metas = true then E n.source else run_node run n E

theorem Reads.same (hE : Reads run (metas ∘ σ) g E) (hσ : Reroutes metas g σ)
    (hg : SortedFrom [] g) : ∀ n ∈ g, E (σ n.name) = E n.name := by
  refine hg.induction (P := fun i => E (σ i) = E i)
    (fun i hi => absurd hi List.not_mem_nil) fun n hn ih => ?_
  rw [label_eq, hσ n hn, hE n hn]
  split_ifs with hb
  · exact ih n.source (source_mem_args hb)
  · rw [hE n hn, if_neg hb]

-- What reads the bypassed casts as their sources evaluates the graph that is left.
theorem Reads.solves (hE : Reads run (metas ∘ σ) g E) (hσ : Reroutes metas g σ)
    (hg : SortedFrom [] g) (hsorted : SortedFrom [] (g.map (Node.replace σ))) :
    Solves (run_node run) (eliminate (is_impure impure) (g.map (Node.replace σ))) E := by
  intro n' hn'
  obtain ⟨n, hn, rfl⟩ := List.mem_map.mp (mem_of_mem_eliminate hn')
  have hlive := (mem_eliminate_iff hsorted _).mp hn'
  have hb := hσ.not_bypassed_of_live hg hn hlive
  rw [label_eq, replace_name, hE n hn, if_neg hb, run_node_replace]
  refine run_node_local run n _ _ fun a ha => ?_
  obtain hnil | ⟨b, hb', rfl⟩ := hg.args_mem hn ha
  · exact absurd hnil List.not_mem_nil
  · exact (hE.same hσ hg b hb').symm

end Rerouted

end TTXla.TTTorch.DtypePromotion

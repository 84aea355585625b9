import TTXla.TTTorch.ArgumentMarkers
import Mathlib.Logic.Function.Basic

-- What the pass leaves: each node with its uses redirected, each marked input before its marker.
namespace TTXla.TTTorch.Passes

variable {F : Type}

-- The argument `a` of a node, past its marker.
def Node.redirect_arg (n : Node F) (marks : Nat → Option (Node F)) (a : Nat) : Nat :=
  if n.copies_to a then a else ((marks a).map Node.id).getD a

def Node.redirect (n : Node F) (marks : Nat → Option (Node F)) : Node F :=
  n.map_args (n.redirect_arg marks)

def marked_nodes (marks : Nat → Option (Node F)) (nodes : List (Node F)) : List (Node F) :=
  nodes.flatMap fun n => n.redirect marks :: (marks n.id).toList

-- What holds once the inputs in `done` are processed.
structure Marked (d : TypeDicts) (lookup : Dict (List Char) String) (gm : Graph F)
    (done : List InputNode) (g : Graph F) (marks : Nat → Option (Node F)) : Prop where
  nodes : g.nodes = marked_nodes marks gm.nodes
  next : gm.next ≤ g.next
  marker : ∀ i m, marks i = some m → ∃ input ∈ done, input.id = i ∧ gm.users i ≠ [] ∧
    ∃ ty, d.argument_type input = some ty ∧ gm.next ≤ m.id ∧
      m = marker_node m.id i ty (_demangle_name input.mangled_name lookup)
  marked : ∀ input ∈ done, gm.users input.id ≠ [] → ∀ ty, d.argument_type input = some ty →
    (marks input.id).isSome

section Arguments

theorem Node.map_args_id (n : Node F) (f : Nat → Nat) : (n.map_args f).id = n.id := rfl

theorem Node.args_map_args (n : Node F) (f : Nat → Nat) : (n.map_args f).args = n.args.map f := by
  obtain ⟨id, op⟩ := n
  cases op <;> rfl

theorem Node.map_args_map_args (n : Node F) (f g : Nat → Nat) :
    (n.map_args f).map_args g = n.map_args fun a => g (f a) := by
  obtain ⟨id, op⟩ := n
  cases op <;> simp [map_args, Op.map_args]

theorem Node.map_args_congr (n : Node F) {f g : Nat → Nat} (h : ∀ a ∈ n.args, f a = g a) :
    n.map_args f = n.map_args g := by
  obtain ⟨id, op⟩ := n
  cases op with
  | placeholder name target => rfl
  | get_attr name target => rfl
  | call_function callee args =>
      have hargs : args.map f = args.map g := List.map_congr_left h
      simp only [map_args, Op.map_args, hargs]
  | output args =>
      have hargs : args.map f = args.map g := List.map_congr_left h
      simp only [map_args, Op.map_args, hargs]

theorem Node.map_args_self (n : Node F) {f : Nat → Nat} (h : ∀ a ∈ n.args, f a = a) :
    n.map_args f = n := by
  rw [n.map_args_congr h]
  obtain ⟨id, op⟩ := n
  cases op <;> simp [map_args, Op.map_args]

theorem Node.copies_to_iff (n : Node F) (i : Nat) :
    n.copies_to i = true ↔ ∃ args, n.op = .call_function .copy_ (i :: args) := by
  obtain ⟨id, op⟩ := n
  cases op with
  | call_function callee args =>
      cases callee with
      | copy_ =>
          cases args <;> simp [copies_to]
      | _ => simp [copies_to]
  | _ => simp [copies_to]

-- A `copy_` into the first argument, whatever becomes of the others.
theorem Node.copies_to_map_args (n : Node F) {f : Nat → Nat} (i : Nat)
    (hf : ∀ a, n.copies_to a = true → f a = a) :
    (n.map_args f).copies_to i = n.copies_to i := by
  obtain ⟨id, op⟩ := n
  cases op with
  | call_function callee args =>
      cases callee with
      | copy_ =>
          cases args with
          | nil => rfl
          | cons a args =>
              have ha := hf a (by simp [copies_to])
              simp [map_args, Op.map_args, copies_to, ha]
      | _ => rfl
  | _ => rfl

end Arguments

section Lemmas

variable {marks : Nat → Option (Node F)}

theorem Node.redirect_id (n : Node F) : (n.redirect marks).id = n.id := rfl

theorem Node.redirect_copies_to (n : Node F) (i : Nat) :
    (n.redirect marks).copies_to i = n.copies_to i :=
  n.copies_to_map_args i fun _ ha => if_pos ha

theorem Node.redirect_arg_eq (n : Node F) {i : Nat} (hi : marks i = none)
    (hfresh : ∀ j m, marks j = some m → m.id ≠ i) (a : Nat) :
    n.redirect_arg marks a = i ↔ a = i := by
  unfold redirect_arg
  split_ifs with h
  · exact Iff.rfl
  · cases ha : marks a with
    | none => rfl
    | some m =>
        have hne : a ≠ i := by
          rintro rfl
          rw [hi] at ha
          exact absurd ha nofun
        exact iff_of_false (hfresh a m ha) hne

-- One more marker.
theorem Node.redirect_update (n : Node F) {i : Nat} (m : Node F) (hi : marks i = none)
    (hfresh : ∀ j m, marks j = some m → m.id ≠ i) :
    n.redirect (Function.update marks i (some m)) =
      if n.copies_to i then n.redirect marks else (n.redirect marks).replace_input_with i m.id := by
  by_cases hcopies : n.copies_to i = true
  · rw [if_pos hcopies]
    refine n.map_args_congr fun a _ => ?_
    unfold redirect_arg
    by_cases ha : a = i
    · rw [ha, if_pos hcopies, if_pos hcopies]
    · rw [Function.update_of_ne ha]
  · rw [if_neg hcopies]
    unfold redirect replace_input_with
    rw [Node.map_args_map_args]
    refine n.map_args_congr fun a _ => ?_
    by_cases ha : a = i
    · rw [if_pos ((n.redirect_arg_eq hi hfresh a).mpr ha), ha]
      unfold redirect_arg
      rw [if_neg hcopies, Function.update_self]
      rfl
    · rw [if_neg fun h => ha ((n.redirect_arg_eq hi hfresh a).mp h)]
      unfold redirect_arg
      rw [Function.update_of_ne ha]

theorem Node.with_marker_redirect (n : Node F) {i : Nat} (m : Node F) (hi : marks i = none)
    (hfresh : ∀ j m, marks j = some m → m.id ≠ i) (hself : n.id = i → n.args = []) :
    (n.redirect marks).with_marker i m =
      if n.id = i then [n.redirect (Function.update marks i (some m)), m]
      else [n.redirect (Function.update marks i (some m))] := by
  unfold with_marker
  rw [redirect_id, redirect_copies_to]
  by_cases hid : n.id = i
  · have hnone : ∀ a ∈ n.args, a ∈ ([] : List Nat) := fun a ha => hself hid ▸ ha
    rw [if_pos hid, if_pos hid]
    unfold redirect
    rw [n.map_args_self fun a ha => absurd (hnone a ha) List.not_mem_nil,
      n.map_args_self fun a ha => absurd (hnone a ha) List.not_mem_nil]
  · rw [if_neg hid, if_neg hid, n.redirect_update m hi hfresh]
    split_ifs <;> rfl

end Lemmas

section Inputs

variable {gm : Graph F}

theorem Graph.eq_of_id {n n' : Node F} (hn : n ∈ gm.nodes) (hn' : n' ∈ gm.nodes)
    (h : n.id = n'.id) : n = n' :=
  List.inj_on_of_nodup_map gm.ids_nodup hn hn' h

theorem mem_get_attrs {input : InputNode} :
    input ∈ gm.get_attrs ↔ ⟨input.id, .get_attr input.name input.target⟩ ∈ gm.nodes := by
  unfold Graph.get_attrs
  rw [List.mem_filterMap]
  constructor
  · rintro ⟨⟨id, op⟩, hn, h⟩
    cases op <;> simp only [Option.some.injEq, reduceCtorEq] at h
    rw [← h]
    exact hn
  · exact fun hn => ⟨_, hn, rfl⟩

theorem mem_placeholders {input : InputNode} :
    input ∈ gm.placeholders ↔ ⟨input.id, .placeholder input.name input.target⟩ ∈ gm.nodes := by
  unfold Graph.placeholders
  rw [List.mem_filterMap]
  constructor
  · rintro ⟨⟨id, op⟩, hn, h⟩
    cases op <;> simp only [Option.some.injEq, reduceCtorEq] at h
    rw [← h]
    exact hn
  · exact fun hn => ⟨_, hn, rfl⟩

theorem mem_input_nodes {input : InputNode} :
    input ∈ input_nodes gm ↔ ⟨input.id, .get_attr input.name input.target⟩ ∈ gm.nodes ∨
      ⟨input.id, .placeholder input.name input.target⟩ ∈ gm.nodes := by
  unfold input_nodes
  rw [List.mem_append, mem_get_attrs, mem_placeholders]

theorem args_of_input {input : InputNode} (h : input ∈ input_nodes gm) {n : Node F}
    (hn : n ∈ gm.nodes) (hid : n.id = input.id) : n.args = [] := by
  obtain h | h := mem_input_nodes.mp h
  · rw [Graph.eq_of_id hn h hid]
    rfl
  · rw [Graph.eq_of_id hn h hid]
    rfl

theorem input_id_lt {input : InputNode} (h : input ∈ input_nodes gm) : input.id < gm.next := by
  obtain h | h := mem_input_nodes.mp h
  · exact gm.ids_lt _ h
  · exact gm.ids_lt _ h

theorem filterMap_ids_pairwise {f : Node F → Option InputNode}
    (hf : ∀ n input, f n = some input → input.id = n.id) :
    (gm.nodes.filterMap f).Pairwise fun a b => a.id ≠ b.id := by
  refine List.Pairwise.filterMap f ?_ (List.pairwise_map.mp gm.ids_nodup)
  intro n n' hne a ha b hb
  rw [hf n a ha, hf n' b hb]
  exact hne

theorem input_ids_nodup (gm : Graph F) : ((input_nodes gm).map InputNode.id).Nodup := by
  unfold input_nodes
  rw [List.Nodup, List.pairwise_map, List.pairwise_append]
  refine ⟨filterMap_ids_pairwise ?_, filterMap_ids_pairwise ?_, fun a ha b hb hid => ?_⟩
  · rintro ⟨id, op⟩ input h
    cases op <;> simp only [Option.some.injEq, reduceCtorEq] at h
    rw [← h]
  · rintro ⟨id, op⟩ input h
    cases op <;> simp only [Option.some.injEq, reduceCtorEq] at h
    rw [← h]
  · have := Graph.eq_of_id (mem_get_attrs.mp ha) (mem_placeholders.mp hb) hid
    simp at this

end Inputs

section Types

variable {sig : ExportGraphSignature} {mutated : List (Option String)}

theorem foldl_add_get_attr {specs : List InputSpec} {target : String}
    (h : ∀ spec ∈ specs, spec.target ≠ some target) (d : TypeDicts) :
    (specs.foldl (TypeDicts.add mutated) d).get_attr_target_type_dict.lookup target =
      d.get_attr_target_type_dict.lookup target := by
  induction specs generalizing d with
  | nil => rfl
  | cons spec specs ih =>
      rw [List.foldl_cons, ih fun spec' hspec' => h spec' (List.mem_cons_of_mem _ hspec')]
      have hne := h spec List.mem_cons_self
      unfold TypeDicts.add
      cases htarget : spec.target with
      | none => rfl
      | some target' =>
          rw [Dict.lookup_insert', if_neg]
          rintro rfl
          exact hne htarget

theorem foldl_add_placeholder {specs : List InputSpec} {name : String}
    (h : ∀ spec ∈ specs, spec.target = none → spec.arg_name ≠ name) (d : TypeDicts) :
    (specs.foldl (TypeDicts.add mutated) d).placeholder_target_type_dict.lookup name =
      d.placeholder_target_type_dict.lookup name := by
  induction specs generalizing d with
  | nil => rfl
  | cons spec specs ih =>
      rw [List.foldl_cons, ih fun spec' hspec' => h spec' (List.mem_cons_of_mem _ hspec')]
      have hne := h spec List.mem_cons_self
      unfold TypeDicts.add
      cases htarget : spec.target with
      | none =>
          rw [Dict.lookup_insert', if_neg]
          rintro rfl
          exact hne htarget rfl
      | some target' => rfl

-- The last spec with a target gives its type.
theorem get_attr_lookup {target : String}
    (h : ∃ spec ∈ sig.input_specs, spec.target = some target) :
    ∃ spec ∈ sig.input_specs, spec.target = some target ∧
      (type_dicts sig).get_attr_target_type_dict.lookup target =
        some (type_str (mutated_buffer_targets sig) spec) := by
  obtain ⟨l, spec, l', hspecs, htarget, hlast⟩ := Dict.exists_last_of_mem h
  refine ⟨spec, by simp [hspecs], htarget, ?_⟩
  unfold type_dicts
  rw [hspecs, List.foldl_append, List.foldl_cons, foldl_add_get_attr hlast]
  unfold TypeDicts.add
  rw [htarget]
  simp only [Dict.lookup_insert', if_pos]

theorem placeholder_lookup {name : String}
    (h : ∃ spec ∈ sig.input_specs, spec.target = none ∧ spec.arg_name = name) :
    ∃ spec ∈ sig.input_specs, spec.target = none ∧
      (type_dicts sig).placeholder_target_type_dict.lookup name =
        some (type_str (mutated_buffer_targets sig) spec) := by
  obtain ⟨spec₀, hspec₀, hnone, hname⟩ := h
  obtain ⟨l, spec, l', hspecs, hkey, hlast⟩ :=
    Dict.exists_last_of_mem (f := fun spec : InputSpec => (spec.target, spec.arg_name))
      ⟨spec₀, hspec₀, by rw [hnone, hname]⟩
  obtain ⟨htarget, harg⟩ := Prod.mk.inj hkey
  refine ⟨spec, by simp [hspecs], htarget, ?_⟩
  unfold type_dicts
  rw [hspecs, List.foldl_append, List.foldl_cons, foldl_add_placeholder fun spec' hspec' htarget'
    harg' => hlast spec' hspec' (by rw [htarget', harg'])]
  unfold TypeDicts.add
  rw [htarget]
  simp only [harg, Dict.lookup_insert', if_pos]

theorem argument_type_of_get_attr {d : TypeDicts} {input : InputNode} {ty : ArgumentType}
    (h : d.get_attr_target_type_dict.lookup input.target = some ty) :
    d.argument_type input = some ty := by
  unfold TypeDicts.argument_type
  rw [h]

theorem argument_type_of_placeholder {d : TypeDicts} {input : InputNode}
    (h : d.get_attr_target_type_dict.lookup input.target = none) :
    d.argument_type input = d.placeholder_target_type_dict.lookup input.name := by
  unfold TypeDicts.argument_type
  rw [h]

end Types

section Pass

variable {d : TypeDicts} {lookup : Dict (List Char) String} {gm g : Graph F}
  {done : List InputNode} {marks : Nat → Option (Node F)}

theorem Marked.fresh (h : Marked d lookup gm done g marks) {i : Nat} (hi : i < gm.next) :
    ∀ j m, marks j = some m → m.id ≠ i := by
  intro j m hm
  obtain ⟨_, _, _, _, _, _, hid, _⟩ := h.marker j m hm
  omega

-- The nodes that use an input which is not yet marked.
theorem Marked.users_iff (h : Marked d lookup gm done g marks) {i : Nat} (hi : i < gm.next)
    (hnone : marks i = none) : g.users i = [] ↔ gm.users i = [] := by
  unfold Graph.users
  rw [List.filter_eq_nil_iff, List.filter_eq_nil_iff, h.nodes]
  have hredirect : ∀ n : Node F, i ∈ (n.redirect marks).args ↔ i ∈ n.args := by
    intro n
    unfold Node.redirect
    rw [Node.args_map_args, List.mem_map]
    constructor
    · rintro ⟨a, ha, heq⟩
      exact (n.redirect_arg_eq hnone (h.fresh hi) a).mp heq ▸ ha
    · exact fun ha => ⟨i, ha, (n.redirect_arg_eq hnone (h.fresh hi) i).mpr rfl⟩
  constructor
  · intro hall n hn
    have := hall (n.redirect marks) (List.mem_flatMap.mpr ⟨n, hn, List.mem_cons_self⟩)
    simpa only [decide_eq_true_eq, hredirect] using this
  · intro hall n hn
    obtain ⟨n₀, hn₀, hn⟩ := List.mem_flatMap.mp hn
    obtain rfl | hn := List.mem_cons.mp hn
    · simpa only [decide_eq_true_eq, hredirect] using hall n₀ hn₀
    · -- a marker uses the input that it marks
      have hmark := Option.mem_toList.mp hn
      obtain ⟨_, _, hid, _, _, _, _, hm⟩ := h.marker _ _ hmark
      rw [hm, decide_eq_true_eq]
      intro hi'
      have : i = n₀.id := List.mem_singleton.mp hi'
      rw [this] at hnone
      rw [hnone] at hmark
      exact absurd hmark nofun

theorem input_of_id {input input' : InputNode} (h : input ∈ input_nodes gm)
    (h' : input' ∈ input_nodes gm) (hid : input.id = input'.id) : input = input' :=
  List.inj_on_of_nodup_map (input_ids_nodup gm) h h' hid

theorem marker_op_inj {id i j : Nat} {ty ty' : ArgumentType} {name name' : String}
    (h : (marker_node id i ty name : Node F).op =
      .call_function (.mark_argument_attributes ty' name') [j]) :
    ty = ty' ∧ name = name' ∧ i = j := by
  unfold marker_node at h
  simp only [Op.call_function.injEq, Callee.mark_argument_attributes.injEq, List.cons.injEq,
    and_true] at h
  exact ⟨h.1.1, h.1.2, h.2⟩

-- The nodes that are new are the markers.
theorem Marked.new_node (h : Marked d lookup gm done g marks) {m : Node F} (hm : m ∈ g.nodes)
    (hnew : gm.next ≤ m.id) :
    ∃ input ∈ done, marks input.id = some m ∧ ∃ ty, d.argument_type input = some ty ∧
      m = marker_node m.id input.id ty (_demangle_name input.mangled_name lookup) := by
  rw [h.nodes] at hm
  obtain ⟨n, hn, hm⟩ := List.mem_flatMap.mp hm
  obtain rfl | hm := List.mem_cons.mp hm
  · have hlt := gm.ids_lt n hn
    rw [Node.redirect_id] at hnew
    omega
  · have hmark := Option.mem_toList.mp hm
    obtain ⟨input, hinput, hid, _, ty, hty, _, hmeq⟩ := h.marker _ _ hmark
    rw [← hid] at hmark hmeq
    exact ⟨input, hinput, hmark, ty, hty, hmeq⟩

theorem exists_node_of_input {input : InputNode} (h : input ∈ input_nodes gm) :
    ∃ n ∈ gm.nodes, n.id = input.id := by
  obtain h | h := mem_input_nodes.mp h
  · exact ⟨_, h, rfl⟩
  · exact ⟨_, h, rfl⟩

theorem Marked.marker_mem (h : Marked d lookup gm (input_nodes gm) g marks) {input : InputNode}
    (hinput : input ∈ input_nodes gm) {m : Node F} (hm : marks input.id = some m) :
    m ∈ g.nodes ∧ gm.next ≤ m.id ∧ ∃ ty, d.argument_type input = some ty ∧
      m = marker_node m.id input.id ty (_demangle_name input.mangled_name lookup) := by
  obtain ⟨input', hinput', hid, _, ty, hty, hnew, hmeq⟩ := h.marker _ _ hm
  rw [input_of_id hinput' hinput hid] at hty hmeq
  obtain ⟨n, hn, hid⟩ := exists_node_of_input hinput
  refine ⟨?_, hnew, ty, hty, hmeq⟩
  rw [h.nodes]
  refine List.mem_flatMap.mpr ⟨n, hn, List.mem_cons_of_mem _ ?_⟩
  rw [hid]
  exact Option.mem_toList.mpr hm

theorem Marked.nodes_insert (h : Marked d lookup gm done g marks) {input : InputNode}
    (hinput : input ∈ input_nodes gm) (hnone : marks input.id = none) (m : Node F) :
    (g.nodes.flatMap fun n => n.with_marker input.id m) =
      marked_nodes (Function.update marks input.id (some m)) gm.nodes := by
  have hlt := input_id_lt hinput
  rw [h.nodes]
  unfold marked_nodes
  rw [List.flatMap_assoc]
  refine List.flatMap_congr fun n hn => ?_
  rw [List.flatMap_cons,
    n.with_marker_redirect m hnone (h.fresh hlt) fun hid => args_of_input hinput hn hid]
  by_cases hid : n.id = input.id
  · rw [if_pos hid, hid, hnone, Function.update_self]
    rfl
  · rw [if_neg hid, Function.update_of_ne hid]
    cases hmark : marks n.id with
    | none => rfl
    | some m' =>
        -- the marker of another node stays as it is
        obtain ⟨_, _, _, _, _, _, hge, hm'⟩ := h.marker _ _ hmark
        have hne : m'.id ≠ input.id := h.fresh hlt _ _ hmark
        have hkept : m'.with_marker input.id m = [m'] := by
          unfold Node.with_marker
          rw [if_neg hne]
          split_ifs with hcopies
          · rfl
          · congr 1
            refine m'.map_args_self fun a ha => if_neg ?_
            rw [hm'] at ha
            have : a = n.id := List.mem_singleton.mp ha
            rw [this]
            exact hid
        rw [Option.toList_some, List.flatMap_cons, hkept]
        rfl

-- One input is processed.
theorem Marked.step (h : Marked d lookup gm done g marks) {input : InputNode}
    (hinput : input ∈ input_nodes gm) (hnew : ∀ input' ∈ done, input'.id ≠ input.id) :
    ∃ marks', Marked d lookup gm (done ++ [input]) (mark_input d lookup g input) marks' := by
  have hlt := input_id_lt hinput
  have hnone : marks input.id = none := by
    rw [Option.eq_none_iff_forall_ne_some]
    intro m hm
    obtain ⟨input', hdone, hid, _⟩ := h.marker _ _ hm
    exact hnew input' hdone hid
  have hkept : ∀ i m, marks i = some m → ∃ input' ∈ done ++ [input], input'.id = i ∧
      gm.users i ≠ [] ∧ ∃ ty, d.argument_type input' = some ty ∧ gm.next ≤ m.id ∧
        m = marker_node m.id i ty (_demangle_name input'.mangled_name lookup) := by
    intro i m hm
    obtain ⟨input', hdone, hrest⟩ := h.marker i m hm
    exact ⟨input', List.mem_append_left _ hdone, hrest⟩
  unfold mark_input
  by_cases husers : g.users input.id = []
  · rw [if_pos husers]
    refine ⟨marks, h.nodes, h.next, hkept, fun input' hinput' husers' ty hty => ?_⟩
    obtain hdone | heq := List.mem_append.mp hinput'
    · exact h.marked input' hdone husers' ty hty
    · rw [List.mem_singleton.mp heq] at husers'
      exact absurd ((h.users_iff hlt hnone).mp husers) husers'
  rw [if_neg husers]
  cases hty : d.argument_type input with
  | none =>
      refine ⟨marks, h.nodes, h.next, hkept, fun input' hinput' husers' ty hty' => ?_⟩
      obtain hdone | heq := List.mem_append.mp hinput'
      · exact h.marked input' hdone husers' ty hty'
      · rw [List.mem_singleton.mp heq, hty] at hty'
        exact absurd hty' nofun
  | some ty =>
      let m : Node F := marker_node g.next input.id ty (_demangle_name input.mangled_name lookup)
      refine ⟨Function.update marks input.id (some m), h.nodes_insert hinput hnone m,
        Nat.le_succ_of_le h.next, fun i m' hm' => ?_, fun input' hinput' husers' ty' hty' => ?_⟩
      · by_cases hi : i = input.id
        · rw [hi, Function.update_self] at hm'
          obtain rfl := Option.some.inj hm'
          have husers' : gm.users i ≠ [] :=
            hi ▸ fun hnil => husers ((h.users_iff hlt hnone).mpr hnil)
          exact ⟨input, by simp, hi.symm, husers', ty, hty, h.next, by rw [hi]; rfl⟩
        · rw [Function.update_of_ne hi] at hm'
          exact hkept i m' hm'
      · by_cases hid : input'.id = input.id
        · rw [hid, Function.update_self]
          rfl
        · rw [Function.update_of_ne hid]
          obtain hdone | heq := List.mem_append.mp hinput'
          · exact h.marked input' hdone husers' ty' hty'
          · exact absurd (congrArg InputNode.id (List.mem_singleton.mp heq)) hid

theorem Marked.run (h : Marked d lookup gm done g marks) {inputs : List InputNode}
    (hinputs : ∀ input ∈ inputs, input ∈ input_nodes gm)
    (hnodup : ((done ++ inputs).map InputNode.id).Nodup) :
    ∃ marks',
      Marked d lookup gm (done ++ inputs) (inputs.foldl (mark_input d lookup) g) marks' := by
  induction inputs generalizing done g marks with
  | nil =>
      rw [List.append_nil]
      exact ⟨marks, h⟩
  | cons input inputs ih =>
      have hnew : ∀ input' ∈ done, input'.id ≠ input.id := by
        rw [List.map_append, List.nodup_append] at hnodup
        exact fun input' hdone => hnodup.2.2 _ (List.mem_map_of_mem hdone) _
          (List.mem_map_of_mem List.mem_cons_self)
      obtain ⟨marks', hstep⟩ := h.step (hinputs input List.mem_cons_self) hnew
      have happend : done ++ input :: inputs = (done ++ [input]) ++ inputs := by simp
      rw [happend] at hnodup ⊢
      exact ih hstep (fun input' hinput' => hinputs input' (List.mem_cons_of_mem _ hinput')) hnodup

theorem marked_nodes_none (nodes : List (Node F)) : marked_nodes (fun _ => none) nodes = nodes := by
  have hself : ∀ n : Node F, n.redirect (fun _ => none) = n := fun n =>
    n.map_args_self fun a _ => ite_self a
  unfold marked_nodes
  simp only [hself, Option.toList_none, List.flatMap_singleton']

-- The whole pass.
theorem insert_argument_type_markers_marked (gm : Graph F) (sig : ExportGraphSignature)
    (flat_name_to_original_fqn : List (String × String)) :
    ∃ marks, Marked (type_dicts sig) (_build_normalized_fqn_lookup flat_name_to_original_fqn) gm
      (input_nodes gm) (insert_argument_type_markers gm sig flat_name_to_original_fqn) marks := by
  have hstart : Marked (type_dicts sig) (_build_normalized_fqn_lookup flat_name_to_original_fqn)
      gm [] gm fun _ => none :=
    ⟨(marked_nodes_none gm.nodes).symm, Nat.le_refl _, nofun, nofun⟩
  exact hstart.run (fun _ h => h) (input_ids_nodup gm)

end Pass

end TTXla.TTTorch.Passes

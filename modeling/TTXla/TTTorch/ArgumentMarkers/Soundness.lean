import TTXla.TTTorch.ArgumentMarkers.Evaluation

-- The markers say which inputs may change between executions.
namespace TTXla.TTTorch.Passes

variable {F : Type}

-- The exported program is unlifted: a spec with a target is read by `get_attr`.
def InputOf (gm : Graph F) (spec : InputSpec) (input : InputNode) : Prop :=
  (spec.target = some input.target ∧ input ∈ gm.get_attrs) ∨
    (spec.target = none ∧ spec.arg_name = input.name ∧ input ∈ gm.placeholders)

structure Exported (gm : Graph F) (sig : ExportGraphSignature) : Prop where
  sorted : gm.Sorted
  target_none : ∀ spec ∈ sig.input_specs,
    spec.target = none ↔ spec.kind = .USER_INPUT ∨ spec.kind = .TOKEN
  distinct : ∀ spec ∈ sig.input_specs, ∀ spec' ∈ sig.input_specs, spec.target ≠ none →
    spec.target = spec'.target → spec = spec'

def is_mutated (sig : ExportGraphSignature) (kind : OutputKind) (spec : InputSpec) : Bool :=
  sig.output_specs.any fun out => out.kind = kind ∧ out.target = spec.target

-- User inputs and mutated buffers may change, the other buffers, constants and parameters do not.
def wanted (sig : ExportGraphSignature) (spec : InputSpec) : Option ArgumentType :=
  match spec.kind with
  | .USER_INPUT => some .input
  | .BUFFER => some (if is_mutated sig .BUFFER_MUTATION spec then .input else .constant)
  | .CONSTANT_TENSOR => some .constant
  | .PARAMETER => if is_mutated sig .PARAMETER_MUTATION spec then none else some .parameter
  | .CUSTOM_OBJ => none
  | .TOKEN => none

def IsMarker (gm r : Graph F) (input : InputNode) (ty : ArgumentType) (m : Node F) : Prop :=
  m ∈ r.nodes ∧ gm.next ≤ m.id ∧
    ∃ name, m.op = .call_function (.mark_argument_attributes ty name) [input.id]

def MarkedAs (gm r : Graph F) (input : InputNode) (ty : ArgumentType) : Prop :=
  (∃ m, IsMarker gm r input ty m) ∧ ∀ ty' m, IsMarker gm r input ty' m → ty' = ty

-- A use goes through a marker, but for the destination of a `copy_`.
def UsesMarked (gm r : Graph F) (input : InputNode) : Prop :=
  ∀ n ∈ gm.nodes, ∀ n' ∈ r.nodes, n'.id = n.id → ∀ k, n.args[k]? = some input.id →
    (k = 0 ∧ n.copies_to input.id = true) ∨
      ∃ ty m, IsMarker gm r input ty m ∧ n'.args[k]? = some m.id

structure MarkersSound (gm r : Graph F) (sig : ExportGraphSignature) : Prop where
  types : ∀ spec ∈ sig.input_specs, ∀ input, InputOf gm spec input →
    ∀ ty, wanted sig spec = some ty → MarkedAs gm r input ty
  uses : ∀ spec ∈ sig.input_specs, ∀ input, InputOf gm spec input →
    (wanted sig spec).isSome → UsesMarked gm r input
  meaning : MeaningKept gm r

structure Markable (gm : Graph F) (sig : ExportGraphSignature) : Prop where
  used : ∀ spec ∈ sig.input_specs, ∀ input, InputOf gm spec input →
    (wanted sig spec).isSome → gm.users input.id ≠ []
  -- no user input has the name of a parameter or of a constant as its target
  apart : ∀ spec ∈ sig.input_specs, ∀ input, InputOf gm spec input → spec.kind = .USER_INPUT →
    ∀ spec' ∈ sig.input_specs, spec'.target = some input.target →
      type_str (mutated_buffer_targets sig) spec' = .input
  no_self_copy : ∀ spec ∈ sig.input_specs, ∀ input, InputOf gm spec input →
    (wanted sig spec).isSome → ∀ n ∈ gm.nodes, n.copies_to input.id = true →
      input.id ∉ n.args.tail
  reads_first : ∀ before n after, gm.nodes = before ++ n :: after → ∀ input ∈ input_nodes gm,
    ((type_dicts sig).argument_type input).isSome → input.id ∈ n.args →
      n.copies_to input.id = false → ∀ n' ∈ before, n'.copies_to input.id = false

section Types

variable {gm r : Graph F} {sig : ExportGraphSignature} {lookup : Dict (List Char) String}
  {marks : Nat → Option (Node F)}

theorem InputOf.mem {spec : InputSpec} {input : InputNode} (h : InputOf gm spec input) :
    input ∈ input_nodes gm := by
  obtain ⟨_, h⟩ | ⟨_, _, h⟩ := h
  · exact List.mem_append_left _ h
  · exact List.mem_append_right _ h

theorem mem_mutated_buffer_targets (spec : InputSpec) :
    spec.target ∈ mutated_buffer_targets sig ↔ is_mutated sig .BUFFER_MUTATION spec = true := by
  unfold mutated_buffer_targets is_mutated
  simp only [List.mem_map, List.mem_filter, List.any_eq_true, decide_eq_true_eq, and_assoc]

theorem type_str_of_wanted {spec : InputSpec} {ty : ArgumentType} (h : wanted sig spec = some ty) :
    type_str (mutated_buffer_targets sig) spec = ty := by
  unfold wanted at h
  unfold type_str
  cases hkind : spec.kind with
  | BUFFER =>
      rw [hkind] at h
      rw [← Option.some.inj h]
      simp only [mem_mutated_buffer_targets]
  | PARAMETER =>
      rw [hkind] at h
      simp only [Option.ite_none_left_eq_some] at h
      exact Option.some.inj h.2
  | USER_INPUT | CONSTANT_TENSOR =>
      rw [hkind] at h
      exact Option.some.inj h
  | CUSTOM_OBJ | TOKEN =>
      rw [hkind] at h
      exact absurd h nofun

theorem type_str_of_target_none (h : Exported gm sig) {spec : InputSpec}
    (hspec : spec ∈ sig.input_specs) (hnone : spec.target = none) :
    type_str (mutated_buffer_targets sig) spec = .input := by
  unfold type_str
  obtain hkind | hkind := (h.target_none spec hspec).mp hnone <;> rw [hkind]

-- The type that the dictionaries give to a spec with a target.
theorem Exported.get_attr_lookup (h : Exported gm sig) {spec : InputSpec}
    (hspec : spec ∈ sig.input_specs) {target : String} (htarget : spec.target = some target) :
    (type_dicts sig).get_attr_target_type_dict.lookup target =
      some (type_str (mutated_buffer_targets sig) spec) := by
  obtain ⟨spec', hspec', htarget', hlookup⟩ := Passes.get_attr_lookup ⟨spec, hspec, htarget⟩
  have hne : spec.target ≠ none := by
    rw [htarget]
    exact nofun
  rw [hlookup, h.distinct spec hspec spec' hspec' hne (htarget.trans htarget'.symm)]

theorem Exported.argument_type_of_target (h : Exported gm sig) {spec : InputSpec}
    (hspec : spec ∈ sig.input_specs) {input : InputNode}
    (htarget : spec.target = some input.target) :
    (type_dicts sig).argument_type input = some (type_str (mutated_buffer_targets sig) spec) :=
  argument_type_of_get_attr (h.get_attr_lookup hspec htarget)

theorem Exported.argument_type_of_none (h : Exported gm sig) {spec : InputSpec}
    (hspec : spec ∈ sig.input_specs) (hnone : spec.target = none) {input : InputNode}
    (hname : spec.arg_name = input.name)
    (hapart : ∀ spec' ∈ sig.input_specs, spec'.target = some input.target →
      type_str (mutated_buffer_targets sig) spec' = .input) :
    (type_dicts sig).argument_type input = some .input := by
  by_cases hcollides : ∃ spec' ∈ sig.input_specs, spec'.target = some input.target
  · obtain ⟨spec', hspec', htarget⟩ := hcollides
    rw [h.argument_type_of_target hspec' htarget, hapart spec' hspec' htarget]
  · have hmissing : (type_dicts sig).get_attr_target_type_dict.lookup input.target = none := by
      unfold type_dicts
      exact foldl_add_get_attr (fun spec' hspec' htarget => hcollides ⟨spec', hspec', htarget⟩) _
    obtain ⟨spec', hspec', hnone', hlookup⟩ := placeholder_lookup ⟨spec, hspec, hnone, hname⟩
    rw [argument_type_of_placeholder hmissing, hlookup, type_str_of_target_none h hspec' hnone']

end Types

section Markers

variable {gm r : Graph F} {sig : ExportGraphSignature} {lookup : Dict (List Char) String}
  {marks : Nat → Option (Node F)} {input : InputNode}

theorem Marked.isMarker_iff (h : Marked (type_dicts sig) lookup gm (input_nodes gm) r marks)
    (hinput : input ∈ input_nodes gm) {ty : ArgumentType} {m : Node F} :
    IsMarker gm r input ty m ↔
      marks input.id = some m ∧ (type_dicts sig).argument_type input = some ty := by
  constructor
  · rintro ⟨hm, hnew, name, hop⟩
    obtain ⟨input', hinput', hmark, ty', hty, hmeq⟩ := h.new_node hm hnew
    rw [hmeq] at hop
    obtain ⟨rfl, _, hid⟩ := marker_op_inj hop
    rw [input_of_id hinput' hinput hid] at hmark hty
    exact ⟨hmark, hty⟩
  · rintro ⟨hmark, hty⟩
    obtain ⟨hm, hnew, ty', hty', hmeq⟩ := h.marker_mem hinput hmark
    obtain rfl := Option.some.inj (hty.symm.trans hty')
    exact ⟨hm, hnew, _, by rw [hmeq]; rfl⟩

theorem Marked.isSome_iff (h : Marked (type_dicts sig) lookup gm (input_nodes gm) r marks)
    (hinput : input ∈ input_nodes gm) :
    (marks input.id).isSome ↔
      gm.users input.id ≠ [] ∧ ((type_dicts sig).argument_type input).isSome := by
  constructor
  · intro hsome
    obtain ⟨m, hm⟩ := Option.isSome_iff_exists.mp hsome
    obtain ⟨_, _, _, husers, _⟩ := h.marker _ _ hm
    obtain ⟨_, _, ty, hty, _⟩ := h.marker_mem hinput hm
    exact ⟨husers, by rw [hty]; rfl⟩
  · rintro ⟨husers, hsome⟩
    obtain ⟨ty, hty⟩ := Option.isSome_iff_exists.mp hsome
    exact h.marked input hinput husers ty hty

theorem Marked.markedAs_iff (h : Marked (type_dicts sig) lookup gm (input_nodes gm) r marks)
    (hinput : input ∈ input_nodes gm) {ty : ArgumentType} :
    MarkedAs gm r input ty ↔
      gm.users input.id ≠ [] ∧ (type_dicts sig).argument_type input = some ty := by
  constructor
  · rintro ⟨⟨m, hm⟩, _⟩
    obtain ⟨hmark, hty⟩ := (h.isMarker_iff hinput).mp hm
    exact ⟨((h.isSome_iff hinput).mp (by rw [hmark]; rfl)).1, hty⟩
  · rintro ⟨husers, hty⟩
    obtain ⟨m, hm⟩ := Option.isSome_iff_exists.mp (h.marked input hinput husers ty hty)
    refine ⟨⟨m, (h.isMarker_iff hinput).mpr ⟨hm, hty⟩⟩, fun ty' m' hm' => ?_⟩
    exact Option.some.inj (((h.isMarker_iff hinput).mp hm').2.symm.trans hty)

theorem Marked.usesMarked_iff (h : Marked (type_dicts sig) lookup gm (input_nodes gm) r marks)
    (hinput : input ∈ input_nodes gm) (hsome : (marks input.id).isSome) :
    UsesMarked gm r input ↔
      ∀ n ∈ gm.nodes, n.copies_to input.id = true → input.id ∉ n.args.tail := by
  obtain ⟨m, hm⟩ := Option.isSome_iff_exists.mp hsome
  obtain ⟨ty, hty⟩ := Option.isSome_iff_exists.mp ((h.isSome_iff hinput).mp hsome).2
  have hmarker := (h.isMarker_iff hinput).mpr ⟨hm, hty⟩
  have hmem : ∀ n ∈ gm.nodes, n.redirect marks ∈ r.nodes := by
    intro n hn
    rw [h.nodes]
    exact List.mem_flatMap.mpr ⟨n, hn, List.mem_cons_self⟩
  constructor
  · intro huses n hn hcopies htail
    obtain ⟨k, hk⟩ := List.mem_iff_getElem?.mp htail
    have harg : n.args[k + 1]? = some input.id := by
      rw [← hk, List.getElem?_tail]
    obtain ⟨hzero, _⟩ | ⟨ty', m', hm', hredirect⟩ :=
      huses n hn _ (hmem n hn) rfl (k + 1) harg
    · omega
    · -- the whole node was skipped, so this use still reads the input
      unfold Node.redirect at hredirect
      rw [Node.args_map_args, List.getElem?_map, harg, Option.map_some,
        Option.some.injEq] at hredirect
      unfold Node.redirect_arg at hredirect
      rw [if_pos hcopies] at hredirect
      have := hm'.2.1
      have := input_id_lt hinput
      omega
  · intro hself n hn n' hn' hid k harg
    rw [Graph.eq_of_id hn' (hmem n hn) hid]
    by_cases hcopies : n.copies_to input.id = true
    · left
      refine ⟨?_, hcopies⟩
      cases k with
      | zero => rfl
      | succ k =>
          rw [← List.getElem?_tail] at harg
          exact absurd (List.mem_of_getElem? harg) (hself n hn hcopies)
    · refine .inr ⟨ty, m, hmarker, ?_⟩
      unfold Node.redirect
      rw [Node.args_map_args, List.getElem?_map, harg, Option.map_some]
      unfold Node.redirect_arg
      rw [if_neg hcopies, hm]
      rfl

theorem Marked.readsFirst_iff (h : Marked (type_dicts sig) lookup gm (input_nodes gm) r marks) :
    ReadsFirst gm marks ↔
      ∀ before n after, gm.nodes = before ++ n :: after → ∀ input ∈ input_nodes gm,
        ((type_dicts sig).argument_type input).isSome → input.id ∈ n.args →
          n.copies_to input.id = false → ∀ n' ∈ before, n'.copies_to input.id = false := by
  constructor
  · intro hreads before n after hnodes input hinput hsome hargs hcopies
    have husers : gm.users input.id ≠ [] := by
      refine List.ne_nil_of_mem (a := n) (List.mem_filter.mpr ⟨by simp [hnodes], ?_⟩)
      exact decide_eq_true hargs
    exact hreads before n after hnodes _ hargs hcopies ((h.isSome_iff hinput).mpr ⟨husers, hsome⟩)
  · intro hreads before n after hnodes a ha hcopies hsome
    obtain ⟨m, hm⟩ := Option.isSome_iff_exists.mp hsome
    obtain ⟨input, hinput, rfl, _⟩ := h.marker _ _ hm
    exact hreads before n after hnodes input hinput ((h.isSome_iff hinput).mp hsome).2 ha hcopies

end Markers

section Soundness

variable {gm : Graph F} {sig : ExportGraphSignature}

theorem markers_sound_iff (h : Exported gm sig)
    (flat_name_to_original_fqn : List (String × String)) :
    MarkersSound gm (insert_argument_type_markers gm sig flat_name_to_original_fqn) sig ↔
      Markable gm sig := by
  obtain ⟨marks, hmarks⟩ :=
    insert_argument_type_markers_marked gm sig flat_name_to_original_fqn
  constructor
  · rintro ⟨htypes, huses, hmeaning⟩
    have hused : ∀ spec ∈ sig.input_specs, ∀ input, InputOf gm spec input →
        (wanted sig spec).isSome → (marks input.id).isSome := by
      intro spec hspec input hof hsome
      obtain ⟨ty, hty⟩ := Option.isSome_iff_exists.mp hsome
      obtain ⟨husers, harg⟩ :=
        (hmarks.markedAs_iff hof.mem).mp (htypes spec hspec input hof ty hty)
      exact (hmarks.isSome_iff hof.mem).mpr ⟨husers, by rw [harg]; rfl⟩
    refine ⟨?_, ?_, ?_, hmarks.readsFirst_iff.mp ((meaning_kept_iff hmarks h.sorted).mp hmeaning)⟩
    · intro spec hspec input hof hsome
      exact ((hmarks.isSome_iff hof.mem).mp (hused spec hspec input hof hsome)).1
    · intro spec hspec input hof hkind spec' hspec' htarget
      have hwanted : wanted sig spec = some .input := by
        unfold wanted
        rw [hkind]
      have harg := ((hmarks.markedAs_iff hof.mem).mp (htypes spec hspec input hof _ hwanted)).2
      rw [h.argument_type_of_target hspec' htarget] at harg
      exact Option.some.inj harg
    · intro spec hspec input hof hsome
      exact (hmarks.usesMarked_iff hof.mem (hused spec hspec input hof hsome)).mp
        (huses spec hspec input hof hsome)
  · intro hmarkable
    have htypes : ∀ spec ∈ sig.input_specs, ∀ input, InputOf gm spec input →
        ∀ ty, wanted sig spec = some ty → (type_dicts sig).argument_type input = some ty := by
      intro spec hspec input hof ty hty
      obtain ⟨htarget, _⟩ | ⟨hnone, hname, _⟩ := id hof
      · rw [h.argument_type_of_target hspec htarget, type_str_of_wanted hty]
      · obtain hkind | hkind := (h.target_none spec hspec).mp hnone
        · have hinput : ty = .input := by
            unfold wanted at hty
            rw [hkind] at hty
            exact (Option.some.inj hty).symm
          rw [hinput]
          exact h.argument_type_of_none hspec hnone hname
            (hmarkable.apart spec hspec input hof hkind)
        · unfold wanted at hty
          rw [hkind] at hty
          exact absurd hty nofun
    refine ⟨fun spec hspec input hof ty hty => ?_, fun spec hspec input hof hsome => ?_, ?_⟩
    · exact (hmarks.markedAs_iff hof.mem).mpr
        ⟨hmarkable.used spec hspec input hof (by rw [hty]; rfl), htypes spec hspec input hof ty hty⟩
    · obtain ⟨ty, hty⟩ := Option.isSome_iff_exists.mp hsome
      have hmark := (hmarks.isSome_iff hof.mem).mpr
        ⟨hmarkable.used spec hspec input hof hsome, by rw [htypes spec hspec input hof ty hty]; rfl⟩
      exact (hmarks.usesMarked_iff hof.mem hmark).mpr
        (hmarkable.no_self_copy spec hspec input hof hsome)
    · exact (meaning_kept_iff hmarks h.sorted).mpr (hmarks.readsFirst_iff.mpr hmarkable.reads_first)

end Soundness

section Runs

instance (gm : Graph F) (spec : InputSpec) (input : InputNode) [DecidableEq F] :
    Decidable (InputOf gm spec input) :=
  inferInstanceAs (Decidable (_ ∨ _))

-- The places of a list, by their index.
theorem forall_split {α : Type} {l : List α} {p : List α → α → Prop}
    (h : ∀ k, (hk : k < l.length) → p (l.take k) (l.get ⟨k, hk⟩)) :
    ∀ before a after, l = before ++ a :: after → p before a := by
  rintro before a after rfl
  have := h before.length (by simp)
  simpa using this

variable {gm : Graph F} {sig : ExportGraphSignature}

theorem forall_inputs {p : InputSpec → InputNode → Prop}
    (h : ∀ spec ∈ sig.input_specs, ∀ input ∈ input_nodes gm, InputOf gm spec input → p spec input) :
    ∀ spec ∈ sig.input_specs, ∀ input, InputOf gm spec input → p spec input :=
  fun spec hspec input hof => h spec hspec input hof.mem hof

-- A layer with a parameter that counts its calls in a buffer.
def counting_graph : Graph Unit where
  nodes := [⟨0, .get_attr "weight_1" "fc.weight"⟩, ⟨1, .get_attr "count_1" "count"⟩,
    ⟨2, .placeholder "x" "x"⟩, ⟨3, .call_function (.other ()) [0, 2]⟩,
    ⟨4, .call_function (.other ()) [1]⟩, ⟨5, .call_function .copy_ [1, 4]⟩, ⟨6, .output [3]⟩]
  next := 7
  ids_nodup := by decide
  ids_lt := by decide

def counting_signature : ExportGraphSignature where
  input_specs := [⟨.PARAMETER, "p_fc_weight", some "fc.weight"⟩, ⟨.BUFFER, "b_count", some "count"⟩,
    ⟨.USER_INPUT, "x", none⟩]
  output_specs := [⟨.BUFFER_MUTATION, some "count"⟩, ⟨.USER_OUTPUT, none⟩]

theorem counting_exported : Exported counting_graph counting_signature where
  sorted := forall_split (by decide)
  target_none := by decide
  distinct := by decide

theorem counting_markers_sound :
    MarkersSound counting_graph
      (insert_argument_type_markers counting_graph counting_signature []) counting_signature :=
  (markers_sound_iff counting_exported []).mpr
    { used := forall_inputs (by decide)
      apart := forall_inputs (by decide)
      no_self_copy := forall_inputs (by decide)
      reads_first := forall_split (by decide) }

-- A root parameter `weight` and a user input of this name.
def weights_graph : Graph Unit where
  nodes := [⟨0, .get_attr "weight_1" "weight"⟩, ⟨1, .placeholder "weight" "weight"⟩,
    ⟨2, .call_function (.other ()) [0, 1]⟩, ⟨3, .output [2]⟩]
  next := 4
  ids_nodup := by decide
  ids_lt := by decide

def weights_signature : ExportGraphSignature where
  input_specs := [⟨.PARAMETER, "p_weight", some "weight"⟩, ⟨.USER_INPUT, "weight", none⟩]
  output_specs := [⟨.USER_OUTPUT, none⟩]

-- The user input is marked as a parameter.
theorem weight_input_mistaken :
    Exported weights_graph weights_signature ∧
      ¬MarkersSound weights_graph
        (insert_argument_type_markers weights_graph weights_signature []) weights_signature := by
  refine ⟨⟨forall_split (by decide), by decide, by decide⟩, fun h => ?_⟩
  obtain ⟨marks, hmarks⟩ := insert_argument_type_markers_marked weights_graph weights_signature []
  have hof : InputOf weights_graph ⟨.USER_INPUT, "weight", none⟩ ⟨1, "weight", "weight"⟩ := by
    decide
  have hmarked := (hmarks.markedAs_iff hof.mem).mp (h.types _ (by decide) _ hof .input rfl)
  have hparameter : (type_dicts weights_signature).argument_type ⟨1, "weight", "weight"⟩ =
      some .parameter := by decide
  rw [hparameter] at hmarked
  exact absurd (Option.some.inj hmarked.2) nofun

end Runs

end TTXla.TTTorch.Passes

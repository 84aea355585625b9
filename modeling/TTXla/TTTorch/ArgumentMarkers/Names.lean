import TTXla.TTTorch.ArgumentMarkers.Marked

-- The names that the markers carry, against the names that Dynamo recorded.
namespace TTXla.TTTorch.Passes

variable {F : Type}

section Mangling

-- A step of an attribute path: `.name` or `[i]`.
inductive Segment where
  | attr (name : String)
  | index (i : Nat)

def Segment.text : Segment → List Char
  | .attr name => name.toList
  | .index i => Nat.toDigits 10 i

def separators : List (List Char) := [['.'], ['_'], ['_', '_', '_']]

-- A text for a path: a dot or an underscore before an attribute, three around an index.
inductive Body : List Segment → List Char → Prop where
  | last (s : Segment) : Body [s] s.text
  | more (s : Segment) {path : List Segment} {sep t : List Char} (hsep : sep ∈ separators)
      (h : Body path t) : Body (s :: path) (s.text ++ (sep ++ t))

def Spelling (path : List Segment) (name : String) : Prop :=
  ∃ n t, Body path t ∧
    name.toList = (List.replicate n getattr_call).flatten ++ (self_reference ++ t)

def original_fqn (path : List Segment) : List Char := ['.'].intercalate (path.map Segment.text)

-- The table that Dynamo keeps, in the order of its insertions.
structure FlatNames where
  items : List (String × String)
  keys_nodup : (items.map Prod.fst).Nodup
  names_nodup : (items.map Prod.snd).Nodup
  mangled : ∀ e ∈ items, ∃ path, Spelling path e.1 ∧ e.2.toList = original_fqn path

end Mangling

section Normalization

theorem head?_collapse (s : List Char) : (collapse s).head? = s.head? := by
  induction s with
  | nil => rfl
  | cons c s ih =>
      rw [collapse]
      split_ifs with h
      · rw [ih, h.2, h.1, List.head?_cons]
      · rfl

theorem collapse_append_congr (s : List Char) {t t' : List Char} (h : collapse t = collapse t') :
    collapse (s ++ t) = collapse (s ++ t') := by
  induction s with
  | nil => exact h
  | cons c s ih =>
      have hhead : (s ++ t).head? = (s ++ t').head? := by
        rw [← head?_collapse, ih, head?_collapse]
      rw [List.cons_append, List.cons_append, collapse, collapse, hhead, ih]

theorem collapse_separator {sep : List Char} (hsep : sep ∈ separators) (t : List Char) :
    collapse (dots_to_underscores sep ++ t) = collapse ('_' :: t) := by
  unfold separators at hsep
  simp only [List.mem_cons, List.not_mem_nil, or_false] at hsep
  obtain rfl | rfl | rfl := hsep <;> simp [dots_to_underscores, collapse]

theorem dots_to_underscores_append (s t : List Char) :
    dots_to_underscores (s ++ t) = dots_to_underscores s ++ dots_to_underscores t :=
  List.map_append

theorem Body.collapse_eq {path : List Segment} {t t' : List Char} (h : Body path t)
    (h' : Body path t') :
    collapse (dots_to_underscores t) = collapse (dots_to_underscores t') := by
  induction h generalizing t' with
  | last s =>
      cases h' with
      | last => rfl
      | more _ _ h => cases h
  | more s hsep h ih =>
      cases h' with
      | last => cases h
      | more _ hsep' h' =>
          simp only [dots_to_underscores_append]
          refine collapse_append_congr _ ?_
          rw [collapse_separator hsep, collapse_separator hsep']
          exact collapse_append_congr ['_'] (ih h')

theorem strip_all_replicate {pre rest : List Char} (hrest : pre.isPrefixOf rest = false)
    (n : Nat) {fuel : Nat} (hfuel : n ≤ fuel) :
    strip_all pre fuel ((List.replicate n pre).flatten ++ rest) = rest := by
  induction n generalizing fuel with
  | zero =>
      cases fuel with
      | zero => rfl
      | succ fuel =>
          rw [List.replicate_zero, List.flatten_nil, List.nil_append, strip_all, hrest]
          rfl
  | succ n ih =>
      obtain ⟨fuel, rfl⟩ := Nat.exists_eq_add_one.mpr (Nat.lt_of_lt_of_le (Nat.succ_pos n) hfuel)
      rw [List.replicate_succ, List.flatten_cons, List.append_assoc, strip_all,
        if_pos (List.isPrefixOf_iff_prefix.mpr (List.prefix_append _ _)), List.drop_left]
      exact ih (Nat.le_of_succ_le_succ hfuel)

-- The spellings of one path have one normal form.
theorem Spelling.normalize_eq {path : List Segment} {name : String} (h : Spelling path name) :
    ∃ t, Body path t ∧ _normalize_fx_name name = collapse (dots_to_underscores t) := by
  obtain ⟨n, t, hbody, hname⟩ := h
  have hprefix : getattr_call.isPrefixOf (self_reference ++ t) = false := rfl
  have hfuel : n ≤ name.toList.length := by
    have hlength : getattr_call.length = 8 := rfl
    rw [hname, List.length_append, List.length_flatten, List.map_replicate,
      List.sum_replicate_nat, hlength]
    omega
  refine ⟨t, hbody, ?_⟩
  unfold _normalize_fx_name
  simp only
  have hstrip : strip_all getattr_call name.toList.length name.toList = self_reference ++ t := by
    conv_lhs => rw [hname]
    exact strip_all_replicate hprefix n (hname ▸ hfuel)
  have hself : strip_self (self_reference ++ t) = t := by
    unfold strip_self
    rw [if_pos (List.isPrefixOf_iff_prefix.mpr (List.prefix_append _ _)), List.drop_left]
  rw [hstrip, hself]

theorem Spelling.same_form {path : List Segment} {name name' : String} (h : Spelling path name)
    (h' : Spelling path name') : _normalize_fx_name name = _normalize_fx_name name' := by
  obtain ⟨t, hbody, hname⟩ := h.normalize_eq
  obtain ⟨t', hbody', hname'⟩ := h'.normalize_eq
  rw [hname, hname', hbody.collapse_eq hbody']

end Normalization

section Lookup

variable (table : FlatNames)

-- The entry is the last one of its normal form.
def FlatNames.LastOfForm (e : String × String) : Prop :=
  ∃ before after, table.items = before ++ e :: after ∧
    ∀ e' ∈ after, _normalize_fx_name e'.1 ≠ _normalize_fx_name e.1

theorem FlatNames.lookup_iff {e : String × String} (he : e ∈ table.items) :
    (_build_normalized_fqn_lookup table.items).lookup (_normalize_fx_name e.1) = some e.2 ↔
      table.LastOfForm e := by
  constructor
  · intro h
    obtain ⟨before, e', after, hitems, hform, hafter⟩ :=
      Dict.exists_last_of_mem (f := fun e : String × String => _normalize_fx_name e.1)
        ⟨e, he, rfl⟩
    unfold _build_normalized_fqn_lookup at h
    rw [hitems, ← hform, Dict.lookup_foldl_of_last (f := fun e : String × String =>
      _normalize_fx_name e.1) (g := Prod.snd) (by rwa [hform])] at h
    have he' : e' ∈ table.items := by simp [hitems]
    obtain rfl : e' = e :=
      List.inj_on_of_nodup_map table.names_nodup he' he (Option.some.inj h)
    exact ⟨before, after, hitems, hafter⟩
  · rintro ⟨before, after, hitems, hafter⟩
    unfold _build_normalized_fqn_lookup
    rw [hitems]
    exact Dict.lookup_foldl_of_last (f := fun e : String × String => _normalize_fx_name e.1)
      (g := Prod.snd) hafter _

end Lookup

section Inputs

def tensor_kinds : List InputKind := [.PARAMETER, .BUFFER, .CONSTANT_TENSOR]

def tensor_targets (sig : ExportGraphSignature) : List (Option String) :=
  (sig.input_specs.filter fun s => s.kind ∈ tensor_kinds).map (·.target)

-- The parameters, buffers and constants that are used.
def tensor_inputs (gm : Graph F) (sig : ExportGraphSignature) : List InputNode :=
  (input_nodes gm).filter fun input =>
    gm.users input.id ≠ [] ∧ (tensor_targets sig).any fun target => target = some input.target

-- A marker that the pass made carries the name for the input.
def AttachedName (gm r : Graph F) (input : InputNode) (name : String) : Prop :=
  ∃ m ∈ r.nodes, gm.next ≤ m.id ∧
    ∃ ty, m.op = .call_function (.mark_argument_attributes ty name) [input.id]

variable {gm : Graph F} {sig : ExportGraphSignature}

theorem mem_tensor_inputs {input : InputNode} :
    input ∈ tensor_inputs gm sig ↔ input ∈ input_nodes gm ∧ gm.users input.id ≠ [] ∧
      some input.target ∈ tensor_targets sig := by
  unfold tensor_inputs
  simp only [List.mem_filter, decide_eq_true_eq, List.any_eq_true, exists_eq_right]

theorem argument_type_of_tensor {input : InputNode}
    (h : some input.target ∈ tensor_targets sig) :
    ∃ ty, (type_dicts sig).argument_type input = some ty := by
  unfold tensor_targets at h
  obtain ⟨spec, hspec, htarget⟩ := List.mem_map.mp h
  obtain ⟨spec', _, _, hty⟩ := get_attr_lookup ⟨spec, List.mem_of_mem_filter hspec, htarget⟩
  exact ⟨_, argument_type_of_get_attr hty⟩

theorem attachedName_iff {input : InputNode} (h : input ∈ tensor_inputs gm sig)
    (items : List (String × String)) (name : String) :
    AttachedName gm (insert_argument_type_markers gm sig items) input name ↔
      name = _demangle_name input.mangled_name (_build_normalized_fqn_lookup items) := by
  obtain ⟨hinput, husers, htarget⟩ := mem_tensor_inputs.mp h
  obtain ⟨marks, hmarks⟩ := insert_argument_type_markers_marked gm sig items
  constructor
  · rintro ⟨m, hm, hnew, ty, hop⟩
    obtain ⟨input', hinput', hmark, ty', _, hmeq⟩ := hmarks.new_node hm hnew
    rw [hmeq] at hop
    obtain ⟨_, hname, hid⟩ := marker_op_inj hop
    rw [← hname, input_of_id hinput' hinput hid]
  · rintro rfl
    obtain ⟨ty, hty⟩ := argument_type_of_tensor htarget
    obtain ⟨m, hm⟩ := Option.isSome_iff_exists.mp (hmarks.marked input hinput husers ty hty)
    obtain ⟨hmem, hnew, ty', _, hmeq⟩ := hmarks.marker_mem hinput hm
    exact ⟨m, hmem, hnew, ty', by rw [hmeq]; rfl⟩

end Inputs

section Survival

variable (table : FlatNames) (gm : Graph F) (sig : ExportGraphSignature)
  (own : InputNode → String × String)

-- Each target is a spelling of the path that its own key spells.
structure Owns : Prop where
  listed : ∀ input ∈ tensor_inputs gm sig, own input ∈ table.items
  spelled : ∀ input ∈ tensor_inputs gm sig, ∃ path,
    Spelling path input.target ∧ Spelling path (own input).1

structure NamesSurvive : Prop where
  name : ∀ input ∈ tensor_inputs gm sig, ∀ name,
    AttachedName gm (insert_argument_type_markers gm sig table.items) input name ↔
      name = (own input).2
  distinct : ∀ input ∈ tensor_inputs gm sig, ∀ input' ∈ tensor_inputs gm sig,
    own input ≠ own input' → ∀ name,
      AttachedName gm (insert_argument_type_markers gm sig table.items) input name →
      ¬AttachedName gm (insert_argument_type_markers gm sig table.items) input' name

variable {table gm sig own}

theorem Spelling.ne_empty {path : List Segment} {name : String} (h : Spelling path name) :
    name ≠ "" := by
  rintro rfl
  obtain ⟨n, t, _, h⟩ := h
  have := congrArg List.length h
  simp [self_reference] at this

-- The name that is attached, by the table.
theorem Owns.demangled_iff (h : Owns table gm sig own) {input : InputNode}
    (hinput : input ∈ tensor_inputs gm sig) :
    _demangle_name input.mangled_name (_build_normalized_fqn_lookup table.items) = (own input).2 ↔
      table.LastOfForm (own input) := by
  obtain ⟨path, htarget, hkey⟩ := h.spelled input hinput
  have hmangled : input.mangled_name = input.target := if_pos htarget.ne_empty
  rw [← table.lookup_iff (h.listed input hinput), hmangled]
  unfold _demangle_name
  rw [htarget.same_form hkey]
  -- the table has an entry of the form, so the lookup does not fall back to the target
  obtain ⟨before, e, after, hitems, hform, hafter⟩ :=
    Dict.exists_last_of_mem (f := fun e : String × String => _normalize_fx_name e.1)
      ⟨own input, h.listed input hinput, rfl⟩
  have hfound : (_build_normalized_fqn_lookup table.items).lookup
      (_normalize_fx_name (own input).1) = some e.2 := by
    unfold _build_normalized_fqn_lookup
    rw [hitems, ← hform]
    exact Dict.lookup_foldl_of_last (f := fun e : String × String => _normalize_fx_name e.1)
      (g := Prod.snd) (by rwa [hform]) _
  rw [hfound, Option.getD_some, Option.some.injEq]

theorem names_survive_iff (h : Owns table gm sig own) :
    NamesSurvive table gm sig own ↔
      ∀ input ∈ tensor_inputs gm sig, table.LastOfForm (own input) := by
  constructor
  · intro hkept input hinput
    refine (h.demangled_iff hinput).mp ((hkept.name input hinput _).mp ?_)
    exact (attachedName_iff hinput table.items _).mpr rfl
  · intro hlast
    have hname : ∀ input ∈ tensor_inputs gm sig, ∀ name,
        AttachedName gm (insert_argument_type_markers gm sig table.items) input name ↔
          name = (own input).2 := by
      intro input hinput name
      rw [attachedName_iff hinput, (h.demangled_iff hinput).mpr (hlast input hinput)]
    refine ⟨hname, fun input hinput input' hinput' hne name hattached hattached' => hne ?_⟩
    refine List.inj_on_of_nodup_map table.names_nodup (h.listed input hinput)
      (h.listed input' hinput') ?_
    rw [← (hname input hinput name).mp hattached, (hname input' hinput' name).mp hattached']

end Survival

section Runs

theorem Body.underscore (s : Segment) {path : List Segment} {t : List Char} (h : Body path t) :
    Body (s :: path) (s.text ++ (['_'] ++ t)) := .more s (by decide) h

theorem Body.underscores (s : Segment) {path : List Segment} {t : List Char} (h : Body path t) :
    Body (s :: path) (s.text ++ (['_', '_', '_'] ++ t)) := .more s (by decide) h

def parameters (targets : List String) : ExportGraphSignature where
  input_specs := targets.map fun target => ⟨.PARAMETER, "p", some target⟩
  output_specs := []

def resampler_path : List Segment :=
  [.attr "resampler", .attr "layers", .index 0, .attr "ff", .index 1, .attr "net", .index 2,
    .attr "weight"]

def resampler_key : String :=
  "getattr_getattr_L__self___resampler_layers___0___ff___1___net___2___weight"

theorem resampler_spelling : Spelling resampler_path resampler_key :=
  ⟨2, _, .underscore _ <| .underscores _ <| .underscores _ <| .underscores _ <| .underscores _ <|
    .underscores _ <| .underscores _ <| .last _, by decide⟩

def resampler_table : FlatNames where
  items := [(resampler_key, "resampler.layers.0.ff.1.net.2.weight")]
  keys_nodup := by decide
  names_nodup := by decide
  mangled := by
    intro e he
    obtain rfl := List.mem_singleton.mp he
    exact ⟨resampler_path, resampler_spelling, by decide⟩

def resampler_graph : Graph Unit where
  nodes := [⟨0, .get_attr "w" resampler_key⟩, ⟨1, .call_function (.other ()) [0]⟩,
    ⟨2, .output [1]⟩]
  next := 3
  ids_nodup := by decide
  ids_lt := by decide

theorem resampler_name_survives :
    NamesSurvive resampler_table resampler_graph (parameters [resampler_key])
      fun _ => (resampler_key, "resampler.layers.0.ff.1.net.2.weight") := by
  refine (names_survive_iff ⟨fun _ _ => List.mem_cons_self, fun input hinput => ?_⟩).mpr
    fun _ _ => ⟨[], [], rfl, nofun⟩
  have hinputs : tensor_inputs resampler_graph (parameters [resampler_key]) =
      [⟨0, "w", resampler_key⟩] := by decide
  rw [hinputs] at hinput
  rw [List.mem_singleton.mp hinput]
  exact ⟨resampler_path, resampler_spelling, resampler_spelling⟩

-- A module list `layers` beside a module `layers_0`.
def list_key : String := "L__self___layers___0___weight"

def module_key : String := "L__self___layers_0_weight"

theorem list_spelling : Spelling [.attr "layers", .index 0, .attr "weight"] list_key :=
  ⟨0, _, .underscores _ <| .underscores _ <| .last _, by decide⟩

theorem module_spelling : Spelling [.attr "layers_0", .attr "weight"] module_key :=
  ⟨0, _, .underscore _ <| .last _, by decide⟩

def layers_table : FlatNames where
  items := [(list_key, "layers.0.weight"), (module_key, "layers_0.weight")]
  keys_nodup := by decide
  names_nodup := by decide
  mangled := by
    intro e he
    obtain rfl | he := List.mem_cons.mp he
    · exact ⟨_, list_spelling, by decide⟩
    · obtain rfl := List.mem_singleton.mp he
      exact ⟨_, module_spelling, by decide⟩

def layers_graph : Graph Unit where
  nodes := [⟨0, .get_attr "w" list_key⟩, ⟨1, .get_attr "w_1" module_key⟩,
    ⟨2, .call_function (.other ()) [0, 1]⟩, ⟨3, .output [2]⟩]
  next := 4
  ids_nodup := by decide
  ids_lt := by decide

def layers_own (input : InputNode) : String × String :=
  if input.target = list_key then (list_key, "layers.0.weight")
  else (module_key, "layers_0.weight")

theorem layers_inputs : tensor_inputs layers_graph (parameters [list_key, module_key]) =
    [⟨0, "w", list_key⟩, ⟨1, "w_1", module_key⟩] := by decide

-- Both weights get the name of the second.
theorem layers_names_collide :
    Owns layers_table layers_graph (parameters [list_key, module_key]) layers_own ∧
      ¬NamesSurvive layers_table layers_graph (parameters [list_key, module_key]) layers_own := by
  have hmem := layers_inputs
  refine ⟨⟨fun input hinput => ?_, fun input hinput => ?_⟩, fun h => ?_⟩
  · unfold layers_own
    split_ifs
    · exact List.mem_cons_self
    · exact List.mem_cons_of_mem _ List.mem_cons_self
  · rw [hmem] at hinput
    obtain rfl | hinput := List.mem_cons.mp hinput
    · exact ⟨_, list_spelling, list_spelling⟩
    · obtain rfl := List.mem_singleton.mp hinput
      exact ⟨_, module_spelling, module_spelling⟩
  · have hinput : (⟨0, "w", list_key⟩ : InputNode) ∈
        tensor_inputs layers_graph (parameters [list_key, module_key]) := by
      rw [hmem]
      exact List.mem_cons_self
    have hname := (h.name _ hinput "layers_0.weight").mp
      ((attachedName_iff hinput layers_table.items _).mpr (by decide))
    exact absurd hname (by decide)

end Runs

end TTXla.TTTorch.Passes

import TTXla.Lib.Excepts
import TTXla.TTTorch.MetadataPropagation.Search

-- When the locations of a graph are extracted, and name the functions that enclose the lines.
namespace TTXla.TTTorch.MetadataPropagation

open TTXla.Strings

section Texts

-- A line of a stack trace, as it is printed for a frame.
def frame_text (path : Text) (lineno : Nat) (name : Text) : Text :=
  "File \x22".toList ++ path ++ "\x22, line ".toList ++ (toString lineno).toList ++
    ", in ".toList ++ name

theorem not_mem_digits {c : Char} (hc : c.isDigit = false) (n : Nat) :
    c ∉ (toString n).toList := by
  intro hmem
  rw [Decimal.isDigit_of_mem_toString hmem] at hc
  exact absurd hc (by decide)

theorem place_inj {path path' : Text} {lineno lineno' : Nat}
    (h : place path lineno = place path' lineno') : path = path' ∧ lineno = lineno' := by
  have hcolon : ∀ n : Nat, ':' ∉ (toString n).toList.reverse := fun n hmem =>
    not_mem_digits (by decide) n (List.mem_reverse.mp hmem)
  have hsplit := congrArg (fun s => (List.splitOn ':' (List.reverse s)).head?) h
  simp only [place, List.reverse_append, List.reverse_cons, List.append_assoc,
    List.singleton_append, List.splitOn_append_cons_self_of_not_mem (hcolon _), List.head?_cons,
    Option.some.injEq, List.reverse_inj] at hsplit
  refine ⟨?_, Decimal.toString_nat_inj (String.toList_inj.mp hsplit)⟩
  rw [place, place, hsplit] at h
  exact List.append_cancel_right h

theorem place_ne_unknown (path : Text) (lineno : Nat) : place path lineno ≠ unknown := by
  intro h
  have hmem : ':' ∈ unknown := h ▸ List.mem_append_right _ List.mem_cons_self
  exact absurd hmem (by decide)

-- The second piece between quotes, when there are no others than the two around the path.
theorem path_of_frame {path name : Text} {lineno : Nat}
    (h : (frame_text path lineno name).count '\x22' = 2) :
    ((frame_text path lineno name).splitOn '\x22')[1]? = some path := by
  have hfile : "File \x22".toList = "File ".toList ++ ['\x22'] := by decide
  have hmiddle : "\x22, line ".toList = '\x22' :: ", line ".toList := by decide
  unfold frame_text at h ⊢
  rewrite [hfile, hmiddle] at h ⊢
  simp only [List.append_assoc, List.cons_append, List.nil_append, List.count_append,
    List.count_cons_self] at h
  have hquote : '\x22' ∉ path := List.count_eq_zero.mp (by omega)
  simp only [List.append_assoc, List.cons_append, List.nil_append]
  rw [List.splitOn_append_cons_self_of_not_mem (by decide),
    List.splitOn_append_cons_self_of_not_mem hquote]
  rfl

theorem item_eq_ok {α : Type} {x : Option α} {a : α} (h : item x = .ok a) : x = some a := by
  cases x with
  | none => cases h
  | some b => rw [Except.ok.inj h]

theorem to_int_eq_ok {s : Text} {n : Int} (h : to_int s = .ok n) : int s = some n := by
  unfold to_int at h
  cases hint : int s with
  | none =>
      rw [hint] at h
      cases h
  | some m =>
      rw [hint] at h
      rw [Except.ok.inj h]

theorem read_line_eq_ok {line : Text} {r : Reading} (h : read_line line = .ok r) :
    ∃ part part' word, ((strip line).splitOn ',')[0]? = some part ∧
      (part.splitOn '\x22')[1]? = some r.full_path ∧
      ((strip line).splitOn ',')[1]? = some part' ∧ (words part').getLast? = some word ∧
      int word = some r.line_num := by
  unfold read_line at h
  obtain ⟨part, hpart, h⟩ := Excepts.bind_eq_ok.mp h
  obtain ⟨full_path, hpath, h⟩ := Excepts.bind_eq_ok.mp h
  obtain ⟨part', hpart', h⟩ := Excepts.bind_eq_ok.mp h
  obtain ⟨word, hword, h⟩ := Excepts.bind_eq_ok.mp h
  obtain ⟨line_num, hint, h⟩ := Excepts.bind_eq_ok.mp h
  obtain ⟨part'', _, h⟩ := Excepts.bind_eq_ok.mp h
  obtain ⟨func_name, _, h⟩ := Excepts.bind_eq_ok.mp h
  obtain rfl := Except.ok.inj h
  exact ⟨part, part', word, item_eq_ok hpart, item_eq_ok hpath, item_eq_ok hpart',
    item_eq_ok hword, to_int_eq_ok hint⟩

-- The line of a frame is read as it was printed, unless its path has a comma or a quote.
theorem line_num_of_frame {line path name : Text} {lineno : Nat} {r : Reading}
    (hline : strip line = frame_text path lineno name) (hread : read_line line = .ok r)
    (hpath : path = r.full_path) : r.line_num = lineno := by
  obtain ⟨part, part', word, hpart, hpiece, hpart', hword, hint⟩ := read_line_eq_ok hread
  have hcomma : ',' ∉ path := by
    intro hmem
    have hmem' := (mem_of_mem_splitOn (List.mem_of_getElem? hpiece) (hpath ▸ hmem)).1
    exact (mem_of_mem_splitOn (List.mem_of_getElem? hpart) hmem').2 rfl
  have hfirst : ',' ∉ "File \x22".toList ++ path ++ ['\x22'] := by
    rw [List.mem_append, List.mem_append, not_or, not_or]
    exact ⟨⟨by decide, hcomma⟩, by decide⟩
  have hsecond : ',' ∉ " line".toList ++ ' ' :: (toString lineno).toList := by
    rw [List.mem_append, List.mem_cons, not_or, not_or]
    exact ⟨by decide, by decide, not_mem_digits (by decide) lineno⟩
  have hframe : frame_text path lineno name =
      ("File \x22".toList ++ path ++ ['\x22']) ++
        ',' :: ((" line".toList ++ ' ' :: (toString lineno).toList) ++
          ',' :: (" in ".toList ++ name)) := by
    have hmiddle : "\x22, line ".toList = '\x22' :: ',' :: (" line".toList ++ [' ']) := by decide
    have hend : ", in ".toList = ',' :: " in ".toList := by decide
    unfold frame_text
    rewrite [hmiddle, hend]
    simp only [List.append_assoc, List.cons_append, List.nil_append]
  rw [hline, hframe, List.splitOn_append_cons_self_of_not_mem hfirst,
    List.splitOn_append_cons_self_of_not_mem hsecond] at hpart'
  obtain rfl := Option.some.inj hpart'
  have hlast : (words (" line".toList ++ ' ' :: (toString lineno).toList)).getLast? =
      some (toString lineno).toList :=
    getLast?_words (by decide) (toString_ne_nil lineno)
      fun c hc => is_space_of_isDigit (Decimal.isDigit_of_mem_toString hc)
  rw [hlast] at hword
  obtain rfl := Option.some.inj hword
  exact int_toString hint

end Texts

section Extraction

variable {files : Text → Option Text} {parse : Text → Option Ast} {lower : Text → Text}

-- What the parser gives of the definitions of a file.
def ParsesDefs (parse : Text → Option Ast) : Prop :=
  ∀ source tree, parse source = some tree → tree.WellNested ∧ ∀ d ∈ tree.defs, 1 ≤ d.lineno

def EnclosedBy (files : Text → Option Text) (parse : Text → Option Ast) (path : Text)
    (line : Int) (d : Def) : Prop :=
  ∃ source, files path = some source ∧ ∃ tree, parse source = some tree ∧ tree.Innermost line d

theorem EnclosedBy.unique {path : Text} {line : Int} {d d' : Def}
    (h : EnclosedBy files parse path line d) (h' : EnclosedBy files parse path line d') :
    d' = d := by
  obtain ⟨source, hsource, tree, htree, hd⟩ := h
  obtain ⟨source', hsource', tree', htree', hd'⟩ := h'
  obtain rfl := Option.some.inj (hsource.symm.trans hsource')
  obtain rfl := Option.some.inj (htree.symm.trans htree')
  exact hd.unique hd'

-- The last line of a file, up to the given one, that starts like a definition.
def scanned (files : Text → Option Text) (path : Text) (line : Int) : Found :=
  ((files path).bind fun source => last_def source line.toNat).getD ⟨0, unknown⟩

theorem find_ast_of_enclosed (hparse : ParsesDefs parse) {path : Text} {line : Int} {d : Def}
    (h : EnclosedBy files parse path line d) :
    _find_enclosing_function files parse path line .ast = (place path d.lineno, d.name) := by
  obtain ⟨source, hsource, tree, htree, hd⟩ := h
  obtain ⟨d', hd', hvisit⟩ | hnone := visit_node_spec line (hparse source tree htree).1
  · obtain rfl := hd.unique hd'
    simp only [_find_enclosing_function, hsource, Option.bind_some, htree, hvisit]
  · exact absurd hd.encloses (hnone d hd.mem)

theorem find_ast_of_none (hparse : ParsesDefs parse) {path : Text} {line : Int}
    (h : ∀ d, ¬ EnclosedBy files parse path line d) :
    _find_enclosing_function files parse path line .ast = (unknown, unknown) := by
  unfold _find_enclosing_function
  cases htree : (files path).bind parse with
  | none => rfl
  | some tree =>
      obtain ⟨source, hsource, hparsed⟩ := Option.bind_eq_some_iff.mp htree
      obtain ⟨d, hd, _⟩ | hnone := visit_node_spec line (hparse source tree hparsed).1
      · exact absurd ⟨source, hsource, tree, hparsed, hd⟩ (h d)
      · simp only [visit_node_of_none hnone]

theorem find_simple (hparse : ParsesDefs parse) {path : Text} {line : Int} {d : Def}
    (h : EnclosedBy files parse path line d) :
    _find_enclosing_function files parse path line .simple =
      if (scanned files path line).found_name ≠ unknown then
        (place path (scanned files path line).found_lineno, (scanned files path line).found_name)
      else (unknown, unknown) := by
  obtain ⟨source, hsource, tree, htree, hd⟩ := h
  have hline : 1 ≤ line := by
    have hpos := (hparse source tree htree).2 d hd.mem
    have hle := hd.encloses.1
    omega
  simp only [_find_enclosing_function, scanned, hsource, Option.bind_some, scan_of_pos hline]

-- The location is unknown, or that of the function which encloses the line of the frame.
def EmitLoc.Names (files : Text → Option Text) (parse : Text → Option Ast) (m : Meta)
    (loc : EmitLoc) : Prop :=
  loc = .make_unknown ∨ ∀ line path lineno name, m.trace.bind traced_line = some line →
    strip line = frame_text path lineno name →
      ∃ d, EnclosedBy files parse path lineno d ∧ loc.func_path = place path d.lineno ∧
        loc.func_name = d.name

-- If the last definition seen before the line has the name of the frame, then it is the one
-- that encloses the line, in the file of the frame.
def Reading.Agrees (files : Text → Option Text) (parse : Text → Option Ast) (line : Text)
    (r : Reading) : Prop :=
  ∀ d, EnclosedBy files parse r.full_path r.line_num d → d.name ≠ unknown →
    (scanned files r.full_path r.line_num).found_name = r.func_name →
      r.func_name ≠ unknown ∧
      (scanned files r.full_path r.line_num).found_lineno = d.lineno ∧
      ∀ path lineno name, strip line = frame_text path lineno name →
        path = r.full_path ∧ r.func_name = d.name

def Meta.Traceable (files : Text → Option Text) (parse : Text → Option Ast) (m : Meta) : Prop :=
  ∀ line, m.trace.bind traced_line = some line →
    ∃ r, read_line line = .ok r ∧ r.Agrees files parse line

theorem located_of_enclosed (hparse : ParsesDefs parse) {r : Reading} {d : Def}
    (hd : EnclosedBy files parse r.full_path r.line_num d) (hname : d.name ≠ unknown)
    (m : Meta) (name : Text) (op_index : Int) :
    located files parse lower m name op_index r =
      if r.func_name ≠ (scanned files r.full_path r.line_num).found_name then .ok .make_unknown
      else if r.func_name = unknown ∨
          (scanned files r.full_path r.line_num).found_lineno ≠ d.lineno then .error .ValueError
      else .ok {
        modules := extracted_modules lower m
        func_path := place r.full_path d.lineno
        func_name := r.func_name
        op_line_num := r.line_num
        op_name := name
        op_index := op_index } := by
  have hplace := place_ne_unknown r.full_path d.lineno
  simp only [located, find_ast_of_enclosed hparse hd, find_simple hparse hd, hname, hplace,
    or_self, if_false]
  generalize scanned files r.full_path r.line_num = found
  by_cases hfound : found.found_name = unknown
  · rw [if_neg (not_not.mpr hfound), hfound]
    by_cases hfunc : r.func_name = unknown
    · rw [if_neg (not_not.mpr hfunc), if_neg (not_not.mpr hfunc), if_pos hplace.symm,
        if_pos (.inl hfunc)]
    · rw [if_pos hfunc, if_pos hfunc]
  · rw [if_pos hfound]
    by_cases hfunc : r.func_name = found.found_name
    · have hknown : r.func_name ≠ unknown := hfunc ▸ hfound
      rw [if_neg (not_not.mpr hfunc), if_neg (not_not.mpr hfunc)]
      by_cases hlineno : found.found_lineno = d.lineno
      · rw [hlineno, if_neg (not_not.mpr rfl), if_neg]
        rintro (h | h)
        · exact hknown h
        · exact h rfl
      · rw [if_pos fun h => hlineno (place_inj h).2, if_pos (.inr hlineno)]
    · rw [if_pos hfunc, if_pos hfunc]

theorem located_of_unknown (hparse : ParsesDefs parse) {r : Reading}
    (h : ∀ d, EnclosedBy files parse r.full_path r.line_num d → d.name = unknown)
    (m : Meta) (name : Text) (op_index : Int) :
    located files parse lower m name op_index r = .ok .make_unknown := by
  unfold located
  by_cases hd : ∃ d, EnclosedBy files parse r.full_path r.line_num d
  · obtain ⟨d, hd⟩ := hd
    simp only [find_ast_of_enclosed hparse hd, h d hd, or_true, if_true]
  · simp only [find_ast_of_none hparse (not_exists.mp hd), or_self, if_true]

theorem located_names_iff (hparse : ParsesDefs parse) {m : Meta} {line : Text} {r : Reading}
    (hline : m.trace.bind traced_line = some line) (hread : read_line line = .ok r)
    (name : Text) (op_index : Int) :
    (∃ loc, located files parse lower m name op_index r = .ok loc ∧ loc.Names files parse m) ↔
      r.Agrees files parse line := by
  by_cases hd : ∃ d, EnclosedBy files parse r.full_path r.line_num d ∧ d.name ≠ unknown
  · obtain ⟨d, hd, hname⟩ := hd
    rw [located_of_enclosed hparse hd hname]
    split_ifs with hfunc hwrong
    · refine ⟨fun _ d' hd' hname' hscanned => absurd hscanned.symm hfunc, fun _ => ?_⟩
      exact ⟨_, rfl, .inl rfl⟩
    · constructor
      · rintro ⟨loc, hloc, _⟩
        cases hloc
      · intro hagrees
        obtain ⟨hknown, hlineno, _⟩ := hagrees d hd hname (not_not.mp hfunc).symm
        exact absurd hwrong (not_or.mpr ⟨hknown, not_not.mpr hlineno⟩)
    · rw [not_or, not_not] at hwrong
      constructor
      · rintro ⟨loc, hloc, hnames⟩ d' hd' hname' _
        obtain rfl := hd.unique hd'
        refine ⟨hwrong.1, hwrong.2, fun path lineno name' hframe => ?_⟩
        obtain rfl := Except.ok.inj hloc
        obtain hunknown | hnames := hnames
        · exact absurd (congrArg EmitLoc.func_path hunknown) (place_ne_unknown _ _)
        · obtain ⟨d'', hd'', hplace, hfunc'⟩ := hnames line path lineno name' hline hframe
          have hpath := (place_inj hplace).1.symm
          rw [← line_num_of_frame hframe hread hpath, hpath] at hd''
          obtain rfl := hd.unique hd''
          exact ⟨hpath, hfunc'⟩
      · intro hagrees
        refine ⟨_, rfl, .inr fun line' path lineno name' hline' hframe => ?_⟩
        obtain rfl := Option.some.inj (hline.symm.trans hline')
        obtain ⟨_, _, hframes⟩ := hagrees d hd hname (not_not.mp hfunc).symm
        obtain ⟨hpath, hfunc'⟩ := hframes path lineno name' hframe
        refine ⟨d, ?_, ?_, hfunc'⟩
        · rw [hpath, ← line_num_of_frame hframe hread hpath]
          exact hd
        · rw [hpath]
  · have hunknown : ∀ d, EnclosedBy files parse r.full_path r.line_num d → d.name = unknown :=
      fun d hd' => by_contra fun hne => hd ⟨d, hd', hne⟩
    rw [located_of_unknown hparse hunknown]
    exact ⟨fun _ d hd' hne => absurd (hunknown d hd') hne, fun _ => ⟨_, rfl, .inl rfl⟩⟩

variable (lower) in
theorem extract_names_iff (hparse : ParsesDefs parse) (m : Meta) (name : Text) (op_index : Int) :
    (∃ loc, _extract_source_and_module_hierarchy_info files parse lower m name op_index =
      .ok loc ∧ loc.Names files parse m) ↔ m.Traceable files parse := by
  cases hline : m.trace.bind traced_line with
  | none =>
      have hextract : _extract_source_and_module_hierarchy_info files parse lower m name op_index =
          .ok .make_unknown := by
        rw [_extract_source_and_module_hierarchy_info, hline]
      rw [hextract]
      refine ⟨fun _ line hline' => ?_, fun _ => ⟨_, rfl, .inl rfl⟩⟩
      rw [hline] at hline'
      cases hline'
  | some line =>
      have hextract : _extract_source_and_module_hierarchy_info files parse lower m name op_index =
          read_line line >>= located files parse lower m name op_index := by
        rw [_extract_source_and_module_hierarchy_info, hline]
      rw [hextract]
      constructor
      · rintro ⟨loc, hloc, hnames⟩ line' hline'
        obtain rfl := Option.some.inj (hline.symm.trans hline')
        obtain ⟨r, hread, hlocated⟩ := Excepts.bind_eq_ok.mp hloc
        exact ⟨r, hread, (located_names_iff hparse hline hread name op_index).mp
          ⟨loc, hlocated, hnames⟩⟩
      · intro htraceable
        obtain ⟨r, hread, hagrees⟩ := htraceable line hline
        obtain ⟨loc, hlocated, hnames⟩ :=
          (located_names_iff hparse hline hread name op_index).mpr hagrees
        exact ⟨loc, Excepts.bind_eq_ok.mpr ⟨r, hread, hlocated⟩, hnames⟩

end Extraction

section Graph

variable {files : Text → Option Text} {parse : Text → Option Ast} {lower : Text → Text}

def Node.Required (node : Node) : Prop := node.op = .call_function false

-- The location that the node of an index gets.
def node_loc (files : Text → Option Text) (parse : Text → Option Ast) (lower : Text → Text)
    (node : Node) (op_index : Int) : Except Raise EmitLoc :=
  match node.meta_data with
  | none => .ok .make_unknown
  | some m =>
      _extract_source_and_module_hierarchy_info files parse lower m node.name op_index

def Node.Located (files : Text → Option Text) (parse : Text → Option Ast) (lower : Text → Text)
    (info : Dict Text Text) (node : Node) : Prop :=
  ∃ op_index loc, node_loc files parse lower node op_index = .ok loc ∧
    info.lookup node.name = some loc.to_string ∧
    ∀ m, node.meta_data = some m → loc.Names files parse m

theorem visit_graph_node_required {node : Node} (h : node.Required)
    (state : Dict Text Text × Int) :
    visit_graph_node files parse lower state node =
      (node_loc files parse lower node state.2).map fun loc =>
        (state.1.insert node.name loc.to_string, state.2 + 1) := by
  rw [visit_graph_node, node_loc, h]
  cases node.meta_data with
  | none => rfl
  | some m =>
      simp only [Bool.false_eq_true, if_false]
      cases _extract_source_and_module_hierarchy_info files parse lower m node.name state.2 <;> rfl

variable (files parse lower) in
theorem visit_graph_node_optional {node : Node} (h : ¬ node.Required)
    (state : Dict Text Text × Int) :
    ∃ state', visit_graph_node files parse lower state node = .ok state' ∧
      ∀ name, name ≠ node.name → state'.1.lookup name = state.1.lookup name := by
  unfold visit_graph_node
  cases hop : node.op with
  | other => exact ⟨state, rfl, fun _ _ => rfl⟩
  | call_function builtin =>
      cases builtin with
      | false => exact absurd hop h
      | true =>
          cases node.meta_data with
          | none =>
              refine ⟨_, rfl, fun name hname => ?_⟩
              rw [Dict.lookup_insert', if_neg hname]
          | some m => exact ⟨state, rfl, fun _ _ => rfl⟩

variable (lower) in
theorem graph_located (hparse : ParsesDefs parse) {graph : List Node}
    (hnames : (graph.map Node.name).Nodup)
    (h : ∀ node ∈ graph, node.Required → ∀ m, node.meta_data = some m →
      m.Traceable files parse) (state : Dict Text Text × Int) :
    ∃ state', graph.foldlM (visit_graph_node files parse lower) state = .ok state' ∧
      (∀ node ∈ graph, node.Required → node.Located files parse lower state'.1) ∧
      ∀ name, name ∉ graph.map Node.name → state'.1.lookup name = state.1.lookup name := by
  induction graph generalizing state with
  | nil => exact ⟨state, rfl, fun node hnode => absurd hnode List.not_mem_nil, fun _ _ => rfl⟩
  | cons node graph ih =>
      rw [List.map_cons, List.nodup_cons] at hnames
      obtain ⟨hnew, hrest⟩ := hnames
      have htail := ih hrest fun node' hnode' => h node' (List.mem_cons_of_mem _ hnode')
      obtain ⟨state₁, hvisit, hframe, hhead⟩ :
          ∃ state₁, visit_graph_node files parse lower state node = .ok state₁ ∧
            (∀ name, name ≠ node.name → state₁.1.lookup name = state.1.lookup name) ∧
            (node.Required → node.Located files parse lower state₁.1) := by
        by_cases hrequired : node.Required
        · have hloc : ∃ loc, node_loc files parse lower node state.2 = .ok loc ∧
              ∀ m, node.meta_data = some m → loc.Names files parse m := by
            unfold node_loc
            cases hmeta : node.meta_data with
            | none => exact ⟨_, rfl, fun m hm => by cases hm⟩
            | some m =>
                obtain ⟨loc, hloc, hnames⟩ := (extract_names_iff lower hparse m node.name
                  state.2).mpr (h node List.mem_cons_self hrequired m hmeta)
                refine ⟨loc, hloc, fun m' hm' => ?_⟩
                rwa [← Option.some.inj hm']
          obtain ⟨loc, hloc, hnames⟩ := hloc
          refine ⟨_, by rw [visit_graph_node_required hrequired, hloc]; rfl, fun name hname => ?_,
            fun _ => ⟨state.2, loc, hloc, ?_, hnames⟩⟩
          · rw [Dict.lookup_insert', if_neg hname]
          · rw [Dict.lookup_insert', if_pos rfl]
        · obtain ⟨state₁, hvisit, hframe⟩ :=
            visit_graph_node_optional files parse lower hrequired state
          exact ⟨state₁, hvisit, hframe, fun hreq => absurd hreq hrequired⟩
      obtain ⟨state', hfold, hlocated, hother⟩ := htail state₁
      refine ⟨state', ?_, ?_, fun name hname => ?_⟩
      · rw [List.foldlM_cons, hvisit]
        exact hfold
      · intro node' hnode' hrequired
        obtain rfl | hnode' := List.mem_cons.mp hnode'
        · obtain ⟨op_index, loc, hloc, hlookup, hnames⟩ := hhead hrequired
          exact ⟨op_index, loc, hloc, (hother _ hnew).trans hlookup, hnames⟩
        · exact hlocated node' hnode' hrequired
      · rw [List.map_cons, List.mem_cons, not_or] at hname
        rw [hother name hname.2, hframe name hname.1]

private def identity_source : Text := definition_start ++ "forward(x):\n    return x".toList

private def identity_files (path : Text) : Option Text :=
  if path = "/a.py".toList then some identity_source else none

private def forward_name : Text := "forward".toList

private def identity_parse (source : Text) : Option Ast :=
  if source = identity_source then some (.function_def forward_name 1 2 .nil .nil) else none

private def traced_node (trace : String) : Node :=
  ⟨.call_function false, "mul".toList, some ⟨some trace.toList, none⟩⟩

end Graph

end TTXla.TTTorch.MetadataPropagation

import TTXla.TTTorch.MetadataPropagation
import Mathlib.Data.List.Induction

-- What the two searches for an enclosing function find.
namespace TTXla.TTTorch.MetadataPropagation

open TTXla.Strings

section Innermost

structure Def where
  name : Text
  lineno : Nat
  end_lineno : Nat

def Def.Encloses (d : Def) (line : Int) : Prop := d.lineno ≤ line ∧ line ≤ d.end_lineno

def Ast.defs : Ast → List Def
  | .nil => []
  | .function_def name lineno end_lineno children siblings =>
      ⟨name, lineno, end_lineno⟩ :: (children.defs ++ siblings.defs)
  | .other children siblings => children.defs ++ siblings.defs

-- A definition starts on a line of its own after all that comes before it, and ends after all
-- that it contains.
def Ast.WellNested : Ast → Prop
  | .nil => True
  | .function_def _ lineno end_lineno children siblings =>
      (∀ d ∈ children.defs, lineno < d.lineno ∧ d.end_lineno ≤ end_lineno) ∧
        (∀ d ∈ siblings.defs, end_lineno < d.lineno) ∧ children.WellNested ∧ siblings.WellNested
  | .other children siblings =>
      (∀ c ∈ children.defs, ∀ d ∈ siblings.defs, c.end_lineno < d.lineno) ∧
        children.WellNested ∧ siblings.WellNested

structure Ast.Innermost (tree : Ast) (line : Int) (d : Def) : Prop where
  mem : d ∈ tree.defs
  encloses : d.Encloses line
  inside : ∀ d' ∈ tree.defs, d'.Encloses line →
    d' = d ∨ d'.lineno < d.lineno ∧ d.end_lineno ≤ d'.end_lineno

variable {line : Int} {tree : Ast}

theorem Ast.Innermost.unique {d d' : Def} (h : tree.Innermost line d)
    (h' : tree.Innermost line d') : d' = d := by
  obtain heq | ⟨hlt, _⟩ := h.inside d' h'.mem h'.encloses
  · exact heq
  · obtain heq | ⟨hgt, _⟩ := h'.inside d h.mem h.encloses
    · exact heq.symm
    · omega

theorem visit_node_of_none (h : ∀ d ∈ tree.defs, ¬ d.Encloses line) (found : Option Found) :
    visit_node line tree found = found := by
  induction tree generalizing found with
  | nil => rfl
  | function_def name lineno end_lineno children siblings _ ih =>
      have hhead : ¬ ((lineno : Int) ≤ line ∧ line ≤ end_lineno) := h _ List.mem_cons_self
      rw [visit_node, if_neg hhead]
      exact ih (fun d hd => h d (List.mem_cons_of_mem _ (List.mem_append_right _ hd))) found
  | other children siblings ihc ihs =>
      rw [visit_node, ihc (fun d hd => h d (List.mem_append_left _ hd))]
      exact ihs (fun d hd => h d (List.mem_append_right _ hd)) found

variable (line) in
-- The visit ends with the innermost definition, or finds nothing that encloses the line.
theorem visit_node_spec (htree : tree.WellNested) :
    (∃ d, tree.Innermost line d ∧ visit_node line tree none = some ⟨d.lineno, d.name⟩) ∨
      (∀ d ∈ tree.defs, ¬ d.Encloses line) := by
  induction tree with
  | nil => exact .inr fun d hd => absurd hd List.not_mem_nil
  | function_def name lineno end_lineno children siblings ihc ihs =>
      obtain ⟨hinside, hafter, hchildren, hsiblings⟩ := htree
      by_cases hhead : (lineno : Int) ≤ line ∧ line ≤ end_lineno
      · have hlater : ∀ d ∈ siblings.defs, ¬ d.Encloses line := by
          intro d hd henc
          have hlt := hafter d hd
          have hle := henc.1
          omega
        left
        obtain ⟨d, hd, hvisit⟩ | hnone := ihc hchildren
        · have hlt := hinside d hd.mem
          refine ⟨d, ⟨List.mem_cons_of_mem _ (List.mem_append_left _ hd.mem), hd.encloses, ?_⟩, ?_⟩
          · intro d' hd' henc
            obtain rfl | hd' := List.mem_cons.mp hd'
            · exact .inr hlt
            · obtain hd' | hd' := List.mem_append.mp hd'
              · exact hd.inside d' hd' henc
              · exact absurd henc (hlater d' hd')
          · rw [visit_node, if_pos hhead, hvisit, visit_node_of_none hlater, if_neg]
            simp only [Option.isNone_some, Bool.false_eq_true, Option.map_some, Option.getD_some,
              false_or]
            omega
        · refine ⟨⟨name, lineno, end_lineno⟩, ⟨List.mem_cons_self, hhead, ?_⟩, ?_⟩
          · intro d' hd' henc
            obtain rfl | hd' := List.mem_cons.mp hd'
            · exact .inl rfl
            · obtain hd' | hd' := List.mem_append.mp hd'
              · exact absurd henc (hnone d' hd')
              · exact absurd henc (hlater d' hd')
          · rw [visit_node, if_pos hhead, visit_node_of_none hnone, visit_node_of_none hlater]
            rfl
      · obtain ⟨d, hd, hvisit⟩ | hnone := ihs hsiblings
        · left
          have hchild : ∀ d' ∈ children.defs, ¬ d'.Encloses line := by
            intro d' hd' henc
            obtain ⟨hlt, hle⟩ := hinside d' hd'
            obtain ⟨h1, h2⟩ := henc
            omega
          refine ⟨d, ⟨List.mem_cons_of_mem _ (List.mem_append_right _ hd.mem), hd.encloses, ?_⟩, ?_⟩
          · intro d' hd' henc
            obtain rfl | hd' := List.mem_cons.mp hd'
            · exact absurd henc hhead
            · obtain hd' | hd' := List.mem_append.mp hd'
              · exact absurd henc (hchild d' hd')
              · exact hd.inside d' hd' henc
          · rw [visit_node, if_neg hhead]
            exact hvisit
        · right
          intro d' hd' henc
          obtain rfl | hd' := List.mem_cons.mp hd'
          · exact hhead henc
          · obtain hd' | hd' := List.mem_append.mp hd'
            · obtain ⟨hlt, hle⟩ := hinside d' hd'
              obtain ⟨h1, h2⟩ := henc
              omega
            · exact hnone d' hd' henc
  | other children siblings ihc ihs =>
      obtain ⟨hbefore, hchildren, hsiblings⟩ := htree
      obtain ⟨d, hd, hvisit⟩ | hnone := ihc hchildren
      · have hlater : ∀ d' ∈ siblings.defs, ¬ d'.Encloses line := by
          intro d' hd' henc
          have hlt := hbefore d hd.mem d' hd'
          obtain ⟨_, h1⟩ := hd.encloses
          obtain ⟨h2, _⟩ := henc
          omega
        left
        refine ⟨d, ⟨List.mem_append_left _ hd.mem, hd.encloses, ?_⟩, ?_⟩
        · intro d' hd' henc
          obtain hd' | hd' := List.mem_append.mp hd'
          · exact hd.inside d' hd' henc
          · exact absurd henc (hlater d' hd')
        · rw [visit_node, hvisit, visit_node_of_none hlater]
      · obtain ⟨d, hd, hvisit⟩ | hnone' := ihs hsiblings
        · left
          refine ⟨d, ⟨List.mem_append_right _ hd.mem, hd.encloses, ?_⟩, ?_⟩
          · intro d' hd' henc
            obtain hd' | hd' := List.mem_append.mp hd'
            · exact absurd henc (hnone d' hd')
            · exact hd.inside d' hd' henc
          · rw [visit_node, visit_node_of_none hnone]
            exact hvisit
        · right
          intro d' hd' henc
          obtain hd' | hd' := List.mem_append.mp hd'
          · exact hnone d' hd' henc
          · exact hnone' d' hd' henc

end Innermost

section Scan

-- The last of the first `n` lines that starts like a definition.
def def_lines (lines : List Text) (start : Nat) : List Found :=
  (lines.zipIdx start).filterMap fun entry =>
    (def_name entry.1).map (Found.mk entry.2)

def last_def (source : Text) (n : Nat) : Option Found :=
  (def_lines ((source.splitOn '\n').take n) 1).getLast?

theorem def_lines_cons (file_line : Text) (lines : List Text) (start : Nat) (current : Found) :
    (def_lines (file_line :: lines) start).getLast?.getD current =
      (def_lines lines (start + 1)).getLast?.getD
        (((def_name file_line).map (Found.mk start)).getD current) := by
  unfold def_lines
  cases hname : def_name file_line with
  | none => simp [List.zipIdx_cons, hname]
  | some name => simp [List.zipIdx_cons, hname, List.getLast?_cons]

theorem scan_eq (lines : List Text) (k n : Nat) (current : Found) :
    scan (n + 1 + k : Nat) (k + 1) lines current =
      (def_lines (lines.take (n + 1)) (k + 1)).getLast?.getD current := by
  induction lines generalizing k n current with
  | nil => rfl
  | cons file_line lines ih =>
      rw [List.take_succ_cons, def_lines_cons, scan]
      cases n with
      | zero =>
          rw [if_pos (by omega)]
          rfl
      | succ n =>
          rw [if_neg (by omega), ← ih (k + 1) n]
          congr 1
          omega

theorem scan_of_pos {line_num : Int} (h : 1 ≤ line_num) (source : Text) (current : Found) :
    scan line_num 1 (source.splitOn '\n') current =
      (last_def source line_num.toNat).getD current := by
  obtain ⟨n, rfl⟩ : ∃ n : Nat, line_num = (n + 1 : Nat) := ⟨line_num.toNat - 1, by omega⟩
  exact scan_eq (source.splitOn '\n') 0 n current

end Scan

end TTXla.TTTorch.MetadataPropagation

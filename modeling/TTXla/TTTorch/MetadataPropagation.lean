import TTXla.Lib.Dict
import TTXla.Lib.Strings

-- The source locations of the nodes of a graph, read from their stack traces.
namespace TTXla.TTTorch.MetadataPropagation

open TTXla.Strings

inductive Raise where
  | IndexError
  | ValueError
  deriving DecidableEq

def unknown : Text := "unknown".toList

def separator : Char := '|'

structure EmitModuleLoc where
  module_class : Text
  module_name : Text

structure EmitLoc where
  modules : List EmitModuleLoc
  func_path : Text
  func_name : Text
  op_line_num : Int
  op_name : Text
  op_index : Int

def EmitLoc.make_unknown : EmitLoc where
  modules := []
  func_path := unknown
  func_name := unknown
  op_line_num := -1
  op_name := unknown
  op_index := -1

def EmitLoc.to_string (loc : EmitLoc) : Text :=
  let modules_list := loc.modules.map fun m => m.module_class ++ '[' :: m.module_name ++ [']']
  let modules_str :=
    if modules_list = [] then [] else [separator].intercalate modules_list ++ [separator]
  (toString loc.op_index).toList ++ separator :: modules_str ++ loc.func_path ++
    separator :: loc.func_name ++ separator :: (toString loc.op_line_num).toList ++ [separator]

section Search

-- The nodes of a syntax tree side by side, each with its children. `function_def` is for the
-- definitions of functions, the async ones among them.
inductive Ast where
  | nil
  | function_def (name : Text) (lineno end_lineno : Nat) (children siblings : Ast)
  | other (children siblings : Ast)

structure Found where
  found_lineno : Nat
  found_name : Text

def visit_node (line : Int) : Ast → Option Found → Option Found
  | .nil, found => found
  | .function_def name lineno end_lineno children siblings, found =>
      let found :=
        if lineno ≤ line ∧ line ≤ end_lineno then
          let inner := visit_node line children found
          if inner.isNone ∨ lineno > (inner.map Found.found_lineno).getD 0 then
            some ⟨lineno, name⟩
          else inner
        else found
      visit_node line siblings found
  | .other children siblings, found =>
      visit_node line siblings (visit_node line children found)

def definition_start : Text := ['d', 'e', 'f', ' ']

-- The name in a line that starts like a definition.
def def_name (file_line : Text) : Option Text :=
  let stripped := lstrip file_line
  if definition_start.isPrefixOf stripped ∧ '(' ∈ stripped.drop 4 then
    some (strip ((stripped.drop 4).takeWhile (· ≠ '(')))
  else none

def scan (line_num : Int) : Nat → List Text → Found → Found
  | _, [], current => current
  | lineno, file_line :: rest, current =>
      let current := ((def_name file_line).map (Found.mk lineno)).getD current
      if (lineno : Int) = line_num then current else scan line_num (lineno + 1) rest current

inductive Mode where
  | simple
  | ast

def place (full_path : Text) (lineno : Nat) : Text :=
  full_path ++ ':' :: (toString lineno).toList

variable (files : Text → Option Text) (parse : Text → Option Ast)

-- `files` are the texts of the files that can be read, `parse` gives their syntax trees.
def _find_enclosing_function (full_path : Text) (line_num : Int) : Mode → Text × Text
  | .simple =>
      match files full_path with
      | none => (unknown, unknown)
      | some source =>
          let current := scan line_num 1 (source.splitOn '\n') ⟨0, unknown⟩
          if current.found_name ≠ unknown then
            (place full_path current.found_lineno, current.found_name)
          else (unknown, unknown)
  | .ast =>
      match (files full_path).bind parse with
      | none => (unknown, unknown)
      | some tree =>
          match visit_node line_num tree none with
          | some found => (place full_path found.found_lineno, found.found_name)
          | none => (unknown, unknown)

end Search

section Extraction

def skip_patterns : List Text :=
  ["python_package/tt_torch/torch_overrides.py".toList, "site-packages/torch/".toList,
    "dist-packages/torch/".toList]

def names_source (line : Text) : Bool :=
  let stripped := strip line
  "File \x22".toList.isPrefixOf stripped && decide (3 ≤ (stripped.splitOn ',').length) &&
    !skip_patterns.any fun skip_pattern => decide (skip_pattern <:+: stripped)

def traced_line (stack_trace : Text) : Option Text :=
  ((strip stack_trace).splitOn '\n').reverse.find? names_source

def item {α : Type} (x : Option α) : Except Raise α :=
  match x with
  | some a => .ok a
  | none => .error .IndexError

def to_int (s : Text) : Except Raise Int :=
  match int s with
  | some n => .ok n
  | none => .error .ValueError

structure Reading where
  full_path : Text
  line_num : Int
  func_name : Text

def read_line (line : Text) : Except Raise Reading := do
  let parts := (strip line).splitOn ','
  let full_path ← item ((← item parts[0]?).splitOn '\x22')[1]?
  let line_num ← to_int (← item (words (← item parts[1]?)).getLast?)
  let func_name ← item (words (← item parts[2]?)).getLast?
  return ⟨full_path, line_num, func_name⟩

structure Meta where
  stack_trace : Option Text
  -- the values, each a path and the name of a class
  nn_module_stack : Option (List (Text × Text))

def Meta.trace (m : Meta) : Option Text :=
  m.stack_trace.filter fun stack_trace => stack_trace ≠ []

variable (files : Text → Option Text) (parse : Text → Option Ast) (lower : Text → Text)

def module_loc (entry : Text × Text) : EmitModuleLoc :=
  let (path, class_name) := entry
  let module_class := (class_name.splitOn '.').getLastD class_name
  let module_name :=
    remove "L[\x27self\x27]".toList (remove "L[\x27self\x27].".toList path)
  ⟨module_class, if module_name = [] then lower module_class else module_name⟩

def extracted_modules (m : Meta) : List EmitModuleLoc :=
  ((m.nn_module_stack.getD []).mergeSort fun x y => x.1.length ≤ y.1.length).map
    (module_loc lower)

def located (m : Meta) (name : Text) (op_index : Int) (r : Reading) : Except Raise EmitLoc :=
  let (func_path, found_func_name) :=
    _find_enclosing_function files parse r.full_path r.line_num .simple
  let (func_path_ast, found_func_name_ast) :=
    _find_enclosing_function files parse r.full_path r.line_num .ast
  if func_path_ast = unknown ∨ found_func_name_ast = unknown then .ok .make_unknown
  else if r.func_name ≠ found_func_name then .ok .make_unknown
  else if func_path ≠ func_path_ast then .error .ValueError
  else
    .ok {
      modules := extracted_modules lower m
      func_path := func_path
      func_name := r.func_name
      op_line_num := r.line_num
      op_name := name
      op_index := op_index }

def _extract_source_and_module_hierarchy_info (m : Meta) (name : Text) (op_index : Int) :
    Except Raise EmitLoc :=
  match m.trace.bind traced_line with
  | none => .ok .make_unknown
  | some line => read_line line >>= located files parse lower m name op_index

inductive Op where
  | call_function (builtin : Bool)
  | other

-- The `meta` of a node is none when it is empty.
structure Node where
  op : Op
  name : Text
  meta_data : Option Meta

def visit_graph_node (state : Dict Text Text × Int) (node : Node) :
    Except Raise (Dict Text Text × Int) :=
  match node.op with
  | .other => .ok state
  | .call_function builtin =>
      match node.meta_data with
      | none =>
          .ok (state.1.insert node.name EmitLoc.make_unknown.to_string, state.2 + 1)
      | some m =>
          if builtin then .ok state
          else do
            let emit_loc ← _extract_source_and_module_hierarchy_info files parse lower m node.name
              state.2
            return (state.1.insert node.name emit_loc.to_string, state.2 + 1)

def extract_nodes_info (graph : List Node) : Except Raise (Dict Text Text) :=
  (graph.foldlM (visit_graph_node files parse lower) (∅, 0)).map Prod.fst

end Extraction

end TTXla.TTTorch.MetadataPropagation

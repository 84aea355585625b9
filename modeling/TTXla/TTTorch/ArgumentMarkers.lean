import TTXla.Lib.Dict
import Mathlib.Data.List.Nodup

-- The pass that marks the arguments of an exported graph.
namespace TTXla.TTTorch.Passes

inductive InputKind where
  | USER_INPUT
  | PARAMETER
  | BUFFER
  | CONSTANT_TENSOR
  | CUSTOM_OBJ
  | TOKEN
deriving DecidableEq

inductive OutputKind where
  | USER_OUTPUT
  | LOSS_OUTPUT
  | BUFFER_MUTATION
  | PARAMETER_MUTATION
  | GRADIENT_TO_PARAMETER
  | GRADIENT_TO_USER_INPUT
  | USER_INPUT_MUTATION
  | TOKEN
deriving DecidableEq

structure InputSpec where
  kind : InputKind
  arg_name : String
  target : Option String
deriving DecidableEq

structure OutputSpec where
  kind : OutputKind
  target : Option String

structure ExportGraphSignature where
  input_specs : List InputSpec
  output_specs : List OutputSpec

inductive ArgumentType where
  | input
  | parameter
  | constant
deriving DecidableEq

inductive Callee (F : Type) where
  | copy_
  | mark_argument_attributes (argument_type : ArgumentType) (name : String)
  | other (f : F)
deriving DecidableEq

-- The nodes among the arguments are known by their ids.
inductive Op (F : Type) where
  | placeholder (name target : String)
  | get_attr (name target : String)
  | call_function (callee : Callee F) (args : List Nat)
  | output (args : List Nat)
deriving DecidableEq

structure Node (F : Type) where
  id : Nat
  op : Op F
deriving DecidableEq

structure Graph (F : Type) where
  nodes : List (Node F)
  -- the id of the next node that is created
  next : Nat
  ids_nodup : (nodes.map Node.id).Nodup
  ids_lt : ∀ n ∈ nodes, n.id < next

variable {F : Type}

def Op.args : Op F → List Nat
  | .placeholder _ _ => []
  | .get_attr _ _ => []
  | .call_function _ args => args
  | .output args => args

def Op.map_args (f : Nat → Nat) : Op F → Op F
  | .placeholder name target => .placeholder name target
  | .get_attr name target => .get_attr name target
  | .call_function callee args => .call_function callee (args.map f)
  | .output args => .output (args.map f)

def Node.args (n : Node F) : List Nat := n.op.args

def Node.map_args (n : Node F) (f : Nat → Nat) : Node F := ⟨n.id, n.op.map_args f⟩

structure InputNode where
  id : Nat
  name : String
  target : String
deriving DecidableEq

def Graph.get_attrs (gm : Graph F) : List InputNode :=
  gm.nodes.filterMap fun n => match n.op with
    | .get_attr name target => some ⟨n.id, name, target⟩
    | _ => none

def Graph.placeholders (gm : Graph F) : List InputNode :=
  gm.nodes.filterMap fun n => match n.op with
    | .placeholder name target => some ⟨n.id, name, target⟩
    | _ => none

def input_nodes (gm : Graph F) : List InputNode := gm.get_attrs ++ gm.placeholders

def Graph.users (gm : Graph F) (i : Nat) : List (Node F) := gm.nodes.filter fun n => i ∈ n.args

-- The node is a `copy_` into `i`.
def Node.copies_to (n : Node F) (i : Nat) : Bool :=
  match n.op with
  | .call_function .copy_ args => args.head? == some i
  | _ => false

def Node.replace_input_with (n : Node F) (i j : Nat) : Node F :=
  n.map_args fun a => if a = i then j else a

section Types

def mutated_buffer_targets (sig : ExportGraphSignature) : List (Option String) :=
  (sig.output_specs.filter fun s => s.kind = .BUFFER_MUTATION).map (·.target)

def type_str (mutated : List (Option String)) (spec : InputSpec) : ArgumentType :=
  match spec.kind with
  | .USER_INPUT => .input
  | .TOKEN => .input
  | .CUSTOM_OBJ => .input
  | .PARAMETER => .parameter
  | .CONSTANT_TENSOR => .constant
  | .BUFFER => if spec.target ∈ mutated then .input else .constant

structure TypeDicts where
  get_attr_target_type_dict : Dict String ArgumentType
  placeholder_target_type_dict : Dict String ArgumentType

def TypeDicts.add (mutated : List (Option String)) (d : TypeDicts) (spec : InputSpec) : TypeDicts :=
  match spec.target with
  | some target =>
      { d with get_attr_target_type_dict :=
          d.get_attr_target_type_dict.insert target (type_str mutated spec) }
  | none =>
      { d with placeholder_target_type_dict :=
          d.placeholder_target_type_dict.insert spec.arg_name (type_str mutated spec) }

def type_dicts (sig : ExportGraphSignature) : TypeDicts :=
  sig.input_specs.foldl (TypeDicts.add (mutated_buffer_targets sig)) ⟨∅, ∅⟩

def TypeDicts.argument_type (d : TypeDicts) (input : InputNode) : Option ArgumentType :=
  match d.get_attr_target_type_dict.lookup input.target with
  | some t => some t
  | none => d.placeholder_target_type_dict.lookup input.name

end Types

section Names

-- The text without its leading copies of `pre`; each round takes a character at least.
def strip_all (pre : List Char) : Nat → List Char → List Char
  | 0, s => s
  | fuel + 1, s => if pre.isPrefixOf s then strip_all pre fuel (s.drop pre.length) else s

-- `re.sub(r"_+", "_", s)`.
def collapse : List Char → List Char
  | [] => []
  | c :: s => if c = '_' ∧ s.head? = some '_' then collapse s else c :: collapse s

def dots_to_underscores (s : List Char) : List Char := s.map fun c => if c = '.' then '_' else c

def getattr_call : List Char := ['g', 'e', 't', 'a', 't', 't', 'r', '_']

def self_reference : List Char := ['L', '_', '_', 's', 'e', 'l', 'f', '_', '_', '_']

def strip_self (s : List Char) : List Char :=
  if self_reference.isPrefixOf s then s.drop self_reference.length else s

def _normalize_fx_name (name : String) : List Char :=
  let s := name.toList
  let s := strip_all getattr_call s.length s
  let s := strip_self s
  let s := dots_to_underscores s
  collapse s

def _build_normalized_fqn_lookup (flat_name_to_original_fqn : List (String × String)) :
    Dict (List Char) String :=
  flat_name_to_original_fqn.foldl (fun d e => d.insert (_normalize_fx_name e.1) e.2) ∅

def _demangle_name (mangled_name : String) (normalized_fqn_lookup : Dict (List Char) String) :
    String :=
  (normalized_fqn_lookup.lookup (_normalize_fx_name mangled_name)).getD mangled_name

def InputNode.mangled_name (input : InputNode) : String :=
  if input.target ≠ "" then input.target else input.name

end Names

section Insertion

-- What becomes of a node when a marker `m` of the node `i` is put behind it.
def Node.with_marker (n : Node F) (i : Nat) (m : Node F) : List (Node F) :=
  if n.id = i then [n, m]
  else if n.copies_to i then [n]
  else [n.replace_input_with i m.id]

theorem Node.with_marker_ids (n : Node F) (i : Nat) (m : Node F) :
    (n.with_marker i m).map Node.id = if n.id = i then [n.id, m.id] else [n.id] := by
  unfold with_marker
  split_ifs <;> rfl

theorem with_marker_ids_nodup {nodes : List (Node F)} {next : Nat} (i : Nat) (m : Node F)
    (hm : m.id = next) (hnodup : (nodes.map Node.id).Nodup) (hlt : ∀ n ∈ nodes, n.id < next) :
    ((nodes.flatMap fun n => n.with_marker i m).map Node.id).Nodup := by
  rw [List.map_flatMap, List.nodup_flatMap]
  refine ⟨fun n hn => ?_, ?_⟩
  · rw [Node.with_marker_ids, hm]
    have := hlt n hn
    split_ifs
    · simp only [List.nodup_cons, List.mem_singleton, List.not_mem_nil, not_false_eq_true,
        List.nodup_nil, and_true]
      omega
    · exact List.nodup_singleton _
  · -- two nodes of different ids are not both followed by the marker
    refine List.Pairwise.imp_of_mem ?_ (List.pairwise_map.mp hnodup)
    intro n n' hn hn' hne x hx hx'
    have hn := hlt n hn
    have hn' := hlt n' hn'
    simp only [Node.with_marker_ids, hm] at hx hx'
    split_ifs at hx hx' <;> simp only [List.mem_cons, List.not_mem_nil, or_false] at hx hx' <;> omega

theorem with_marker_ids_lt {nodes : List (Node F)} {next : Nat} (i : Nat) (m : Node F)
    (hm : m.id = next) (hlt : ∀ n ∈ nodes, n.id < next) :
    ∀ n ∈ nodes.flatMap fun n => n.with_marker i m, n.id < next + 1 := by
  intro n hn
  obtain ⟨n₀, hn₀, hn⟩ := List.mem_flatMap.mp hn
  have hlt := hlt n₀ hn₀
  have hid := List.mem_map_of_mem (f := Node.id) hn
  rw [Node.with_marker_ids, hm] at hid
  split_ifs at hid <;> simp only [List.mem_cons, List.not_mem_nil, or_false] at hid <;> omega

def marker_node (id i : Nat) (argument_type : ArgumentType) (name : String) : Node F :=
  ⟨id, .call_function (.mark_argument_attributes argument_type name) [i]⟩

def Graph.insert_marker (gm : Graph F) (i : Nat) (argument_type : ArgumentType) (name : String) :
    Graph F where
  nodes := gm.nodes.flatMap fun n => n.with_marker i (marker_node gm.next i argument_type name)
  next := gm.next + 1
  ids_nodup := with_marker_ids_nodup i _ rfl gm.ids_nodup gm.ids_lt
  ids_lt := with_marker_ids_lt i _ rfl gm.ids_lt

def mark_input (d : TypeDicts) (normalized_fqn_lookup : Dict (List Char) String) (gm : Graph F)
    (input_node : InputNode) : Graph F :=
  if gm.users input_node.id = [] then gm
  else match d.argument_type input_node with
    | none => gm
    | some argument_type => gm.insert_marker input_node.id argument_type
        (_demangle_name input_node.mangled_name normalized_fqn_lookup)

def insert_argument_type_markers (gm : Graph F) (graph_signature : ExportGraphSignature)
    (flat_name_to_original_fqn : List (String × String)) : Graph F :=
  (input_nodes gm).foldl
    (mark_input (type_dicts graph_signature)
      (_build_normalized_fqn_lookup flat_name_to_original_fqn)) gm

end Insertion

end TTXla.TTTorch.Passes

import TTXla.Lib.Dataflow
import Mathlib.Data.Option.Basic

-- Graphs of operators on tensors of several dtypes, and the removal of the casts that are
-- redundant or that decompositions put in.
namespace TTXla.TTTorch.DtypePromotion

open TTXla.Dataflow

inductive Dtype where
  | bool | uint8 | int8 | int16 | int32 | int64
  | float8_e4m3fn | float8_e5m2 | float16 | bfloat16 | float32 | float64
  deriving DecidableEq

def Dtype.float_bits : Dtype → Option Nat
  | .float8_e4m3fn | .float8_e5m2 => some 8
  | .float16 | .bfloat16 => some 16
  | .float32 => some 32
  | .float64 => some 64
  | _ => none

-- A promotion between floating point types.
def Dtype.promotes_to (source target : Dtype) : Prop :=
  ∃ a, source.float_bits = some a ∧ ∃ b, target.float_bits = some b ∧ a < b

structure TensorMetadata where
  shape : List Nat
  dtype : Dtype
  deriving DecidableEq

inductive Value where
  | tensor (tensor_meta : TensorMetadata)
  | tuple (values : List Value)
  | scalar

def Value.tensor_meta : Value → Option TensorMetadata
  | .tensor m => some m
  | _ => none

def Value.dtype (v : Value) : Option Dtype :=
  v.tensor_meta.map TensorMetadata.dtype

-- The constant arguments of a call are part of its target, `args` are the nodes it uses.
inductive Op (F : Type) where
  | placeholder (value : Value)
  | get_attr (value : Value)
  | convert_element_type (arg : Nat) (dtype : Dtype) (original_aten : Option String)
  | call_function (target : F) (args : List Nat)
  | output (args : List Nat)

structure Node (F : Type) where
  name : Nat
  op : Op F
  tensor_meta : Option TensorMetadata

variable {F : Type}

def Op.args : Op F → List Nat
  | .placeholder _ | .get_attr _ => []
  | .convert_element_type arg _ _ => [arg]
  | .call_function _ args | .output args => args

instance : DataNode (Node F) where
  label := Node.name
  args n := n.op.args

section Evaluation

def convert_element_type (dtype : Dtype) : Value → Option Value
  | .tensor m => some (.tensor { m with dtype })
  | _ => none

-- An operator may reject what it is called on.
def run_node (run : F → List Value → Option Value) (n : Node F) (env : Nat → Option Value) :
    Option Value :=
  match n.op with
  | .placeholder v | .get_attr v => some v
  | .convert_element_type arg dtype _ => (env arg).bind (convert_element_type dtype)
  | .call_function target args => (args.mapM env).bind (run target)
  | .output args => (args.mapM env).map Value.tuple

def interpret (run : F → List Value → Option Value) (g : List (Node F)) : Nat → Option Value :=
  eval (run_node run) g fun _ => none

-- What is not a tensor leaves the recorded metadata as it is.
def Node.record (env : Nat → Option Value) (n : Node F) : Node F :=
  { n with tensor_meta := ((env n.name).bind Value.tensor_meta).or n.tensor_meta }

def run_shape_prop (run : F → List Value → Option Value) (g : List (Node F)) :
    Option (List (Node F)) :=
  if ∀ n ∈ g, (interpret run g n.name).isSome then some (g.map (Node.record (interpret run g)))
  else none

end Evaluation

section Pass

def is_impure (impure : F → Bool) (n : Node F) : Bool :=
  match n.op with
  | .placeholder _ | .output _ => true
  | .get_attr _ | .convert_element_type _ _ _ => false
  | .call_function target _ => impure target

def Node.is_unwanted_dtype_promotion (n : Node F) : Bool :=
  match n.op with
  | .convert_element_type _ dtype original_aten =>
      original_aten != some "aten::_to_copy" && dtype = .float32
  | _ => false

def Node.is_redundant_cast (metas : Nat → Option TensorMetadata) (n : Node F) : Bool :=
  match n.op with
  | .convert_element_type arg dtype _ => (metas arg).map TensorMetadata.dtype = some dtype
  | _ => false

def Node.is_bypassed (metas : Nat → Option TensorMetadata) (n : Node F) : Bool :=
  n.is_unwanted_dtype_promotion || n.is_redundant_cast metas

def Node.lacks_original_aten (n : Node F) : Bool :=
  match n.op with
  | .convert_element_type _ _ none => true
  | _ => false

-- What a cast converts.
def Node.source (n : Node F) : Nat :=
  match n.op with
  | .convert_element_type arg _ _ => arg
  | _ => n.name

def Op.replace (σ : Nat → Nat) : Op F → Op F
  | .placeholder v => .placeholder v
  | .get_attr v => .get_attr v
  | .convert_element_type arg dtype original_aten =>
      .convert_element_type (σ arg) dtype original_aten
  | .call_function target args => .call_function target (args.map σ)
  | .output args => .output (args.map σ)

def Node.replace (σ : Nat → Nat) (n : Node F) : Node F :=
  { n with op := n.op.replace σ }

def recorded (g : List (Node F)) (name : Nat) : Option TensorMetadata :=
  (g.find? fun n => n.name = name).bind Node.tensor_meta

-- `σ` is what the uses of each node visited so far were replaced with.
def visit (metas : Nat → Option TensorMetadata) :
    List (Node F) → (Nat → Nat) → List (Node F) × (Nat → Nat)
  | [], σ => ([], σ)
  | n :: ns, σ =>
      let node := n.replace σ
      let σ := if node.is_bypassed metas then Function.update σ node.name node.source else σ
      (node :: (visit metas ns σ).1, (visit metas ns σ).2)

def bypass_casts (impure : F → Bool) (g : List (Node F)) : List (Node F) × (Nat → Nat) :=
  let visited := visit (recorded g) g id
  (eliminate (is_impure impure) visited.1, visited.2)

inductive Stop where
  | raised
  | out_of_fuel

-- The graph after the pass, and for each name of the graph before it the node that took over
-- its uses. A cast without an original operator raises when it is visited.
def bypass_dtype_promotion_and_redundant_cast (run : F → List Value → Option Value)
    (impure : F → Bool) : Nat → List (Node F) → Except Stop (List (Node F) × (Nat → Nat))
  | 0, _ => .error .out_of_fuel
  | fuel + 1, g =>
      if g.any Node.lacks_original_aten then .error .raised
      else
        let bypassed := bypass_casts impure g
        if g.any Node.is_unwanted_dtype_promotion then
          match run_shape_prop run bypassed.1 with
          | none => .error .raised
          | some propagated =>
              (bypass_dtype_promotion_and_redundant_cast run impure fuel propagated).map
                fun result => (result.1, result.2 ∘ bypassed.2)
        else .ok bypassed

end Pass

end TTXla.TTTorch.DtypePromotion

import TTXla.Lib.SSA.OpList

-- The patterns that turn the custom calls on arguments into attributes of the arguments.
namespace TTXla.PJRT.MarkCustomCalls

open OpList

def c_name_attr_name : String := "ttir.name"

def c_argument_type_attr_name : String := "ttcore.argument_type"

def c_mark_argument_function_name : String := "tt.mark_argument"

def c_weight_dtype_override_function_name : String := "tt.weight_dtype_override"

def c_weight_dtype_attr_name : String := "ttcore.weight_dtype"

inductive BlockArgument where
  | func (func : String) (arg_index : Nat)
  | region (op : OpId) (arg_index : Nat)
  deriving DecidableEq

inductive Attribute where
  | string (value : String)
  | other

structure CustomCallOp where
  call_target_name : String
  num_results : Nat
  frontend_attributes : Option (List (String × Attribute))

inductive OpKind (K : Type) where
  | custom_call (op : CustomCallOp)
  | other (kind : K)

structure ArgAttrs (R : Type) where
  argument_type : Option R
  name : Option String
  weight_dtype : Option String

structure Module (R K : Type) where
  ops : List (Op BlockArgument (OpKind K))
  arg_attrs : String → Nat → ArgAttrs R

-- What a pattern sets on an argument.
inductive ArgUpdate (R : Type) where
  | argument (argument_type : R) (name : String)
  | weight_dtype (dtype : String)

def ArgUpdate.apply {R : Type} (attrs : ArgAttrs R) : ArgUpdate R → ArgAttrs R
  | .argument argument_type name =>
      { attrs with argument_type := some argument_type, name := some name }
  | .weight_dtype dtype => { attrs with weight_dtype := some dtype }

inductive Match (α : Type) where
  | failure
  | fatal
  | success (a : α)

variable {R K : Type} (ArgumentTypeStringToEnum : String → Option R)

def PopulateArgumentAttrsFromTTMark (op : CustomCallOp) (num_operands : Nat) :
    Match (ArgUpdate R) :=
  if op.call_target_name ≠ c_mark_argument_function_name then .failure
  else if num_operands ≠ 1 ∨ op.num_results ≠ 1 then .fatal
  else
    match op.frontend_attributes with
    | none => .failure
    | some frontendAttrs =>
        match frontendAttrs.lookup c_argument_type_attr_name with
        | none => .failure
        | some argumentType =>
            let argumentTypeStr :=
              match argumentType with
              | .string s => s
              | .other => ""
            match frontendAttrs.lookup c_name_attr_name with
            | some (.string name) =>
                match ArgumentTypeStringToEnum argumentTypeStr with
                | some argumentTypeEnum => .success (.argument argumentTypeEnum name)
                | none => .failure
            | _ => .failure

def PopulateWeightDtypeFromCustomCall (op : CustomCallOp) (num_operands : Nat) :
    Match (ArgUpdate R) :=
  if op.call_target_name ≠ c_weight_dtype_override_function_name then .failure
  else if num_operands ≠ 1 ∨ op.num_results ≠ 1 then .fatal
  else
    match op.frontend_attributes with
    | none => .failure
    | some frontendAttrs =>
        match frontendAttrs.lookup c_weight_dtype_attr_name with
        | some (.string dtype) => .success (.weight_dtype dtype)
        | _ => .failure

-- The patterns match custom calls of different targets.
def match_op (kind : OpKind K) (num_operands : Nat) : Match (ArgUpdate R) :=
  match kind with
  | .other _ => .failure
  | .custom_call op =>
      match PopulateArgumentAttrsFromTTMark ArgumentTypeStringToEnum op num_operands with
      | .failure => PopulateWeightDtypeFromCustomCall op num_operands
      | m => m

-- The later operations are first in the list, those before them define their operands.
def getBlockArguments : List (Op BlockArgument (OpKind K)) → Value BlockArgument →
    List BlockArgument
  | _, .argument blockArg => [blockArg]
  | [], .result _ _ => []
  | definingOp :: ops, .result op index =>
      if definingOp.id = op then definingOp.operands.flatMap (getBlockArguments ops)
      else getBlockArguments ops (.result op index)

def BlockArgument.of_function : BlockArgument → Bool
  | .func _ _ => true
  | .region _ _ => false

def setArgAttr (arg_update : ArgUpdate R) (arg_attrs : String → Nat → ArgAttrs R) :
    BlockArgument → String → Nat → ArgAttrs R
  | .func func arg_index => fun f i =>
      if f = func ∧ i = arg_index then arg_update.apply (arg_attrs f i) else arg_attrs f i
  | .region _ _ => arg_attrs

-- It is fatal when the input comes from an argument of a region.
def matchAndRewrite (m : Module R K) (op : Op BlockArgument (OpKind K)) : Match (Module R K) :=
  match match_op ArgumentTypeStringToEnum op.kind op.operands.length, op.operands with
  | .failure, _ => .failure
  | .success arg_update, input :: _ =>
      let blockArgs := getBlockArguments m.ops input
      if blockArgs.all BlockArgument.of_function then
        .success {
          ops := replaceOp m.ops op.id input
          arg_attrs := blockArgs.foldl (setArgAttr arg_update) m.arg_attrs }
      else .fatal
  | _, _ => .fatal

-- One rewrite of the greedy driver, which chooses any operation that matches.
def Step (m m' : Module R K) : Prop :=
  ∃ op ∈ m.ops, matchAndRewrite ArgumentTypeStringToEnum m op = .success m'

-- The driver stops when no pattern matches.
def Stopped (m : Module R K) : Prop :=
  ∀ op ∈ m.ops, matchAndRewrite ArgumentTypeStringToEnum m op = .failure

end TTXla.PJRT.MarkCustomCalls

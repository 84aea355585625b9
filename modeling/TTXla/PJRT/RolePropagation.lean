import TTXla.Lib.Spread

-- The roles of the arguments of a module, as its calls of mark functions give them.
namespace TTXla.PJRT.RolePropagation

abbrev OpId := Nat

-- An argument belongs to the block of a function, or of a region of another operation.
inductive Value where
  | func_argument (func : String) (arg_index : Nat)
  | region_argument (op : OpId) (arg_index : Nat)
  | result (op : OpId) (index : Nat)
  deriving DecidableEq

structure CallOp where
  callee : String
  operands : List Value
  role_attr : Option String

-- The calls are in the order of a walk over the module.
structure ModuleOp where
  funcs : List (String × Nat)
  calls : List CallOp
  operands : OpId → List Value

variable {R : Type} (ArgumentTypeStringToEnum : String → Option R)

-- The role attributes of the arguments of the functions.
abbrev ArgAttrs (R : Type) := String → Nat → Option R

def setArgAttr (attrs : ArgAttrs R) (func : String) (arg_index : Nat) (role : R) : ArgAttrs R :=
  fun f i => if f = func ∧ i = arg_index then some role else attrs f i

-- The recursion may not end; an argument of a region that has no operand is out of range.
def propagateRoleAttribute (m : ModuleOp) (role_attr : String) :
    Nat → Value → ArgAttrs R → Option (ArgAttrs R)
  | 0, _, _ => none
  | fuel + 1, argument, attrs =>
      match argument with
      | .result _ _ => some attrs
      | .func_argument func arg_index =>
          match ArgumentTypeStringToEnum role_attr with
          | none => some attrs
          | some argumentTypeEnum =>
              m.calls.foldlM (fun attrs call_op =>
                if call_op.callee = func then
                  match call_op.operands[arg_index]? with
                  | some callerArg => propagateRoleAttribute m role_attr fuel callerArg attrs
                  | none => some attrs
                else some attrs) (setArgAttr attrs func arg_index argumentTypeEnum)
      | .region_argument op arg_index => do
          let op_operand ← (m.operands op)[arg_index]?
          propagateRoleAttribute m role_attr fuel op_operand attrs

def propagateInputRoleAttributes (m : ModuleOp) (fuel : Nat) (attrs : ArgAttrs R) :
    Option (ArgAttrs R) :=
  m.calls.foldlM (fun attrs call_op =>
    match call_op.role_attr with
    | none => some attrs
    | some role_attr =>
        call_op.operands.foldlM (fun attrs operand =>
          propagateRoleAttribute ArgumentTypeStringToEnum m role_attr fuel operand attrs) attrs) attrs

-- The walk over the functions and their arguments, with the role for inputs.
def setDefaultRoleForUnannotatedArguments (m : ModuleOp) (input : R) (attrs : ArgAttrs R) :
    ArgAttrs R :=
  m.funcs.foldl (fun attrs funcOp =>
    (List.range funcOp.2).foldl (fun attrs i =>
      if (attrs funcOp.1 i).isSome then attrs else setArgAttr attrs funcOp.1 i input) attrs) attrs

end TTXla.PJRT.RolePropagation

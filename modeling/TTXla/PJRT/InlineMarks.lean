import TTXla.Lib.SSA

-- The pass that removes the calls of the `tt.mark` functions, after their roles are propagated.
namespace TTXla.PJRT

open SSA

variable {K : Type}

def c_tt_mark_function_prefix : String := "tt.mark_"

-- `function_name.rfind(prefix, 0) == 0`.
def isTTMarkFunction (function_name : String) : Bool :=
  c_tt_mark_function_prefix.toList.isPrefixOf function_name.toList

-- A function, which may be only declared.
structure FuncOp (K : Type) where
  sym_name : String
  is_private : Bool
  args : List ValueId
  body : Option (Block String K)

structure ModuleOp (K : Type) where
  funcs : List (FuncOp K)

def FuncOp.to_remove (func_op : FuncOp K) : Bool :=
  isTTMarkFunction func_op.sym_name && func_op.is_private

def functions_to_remove (mlir_module : ModuleOp K) : List (FuncOp K) :=
  mlir_module.funcs.filter FuncOp.to_remove

-- The walk over the calls. `replaceAllUsesWith` reaches the operations after a call.
def FuncOp.inline_calls (func_op : FuncOp K) : FuncOp K :=
  { func_op with body := func_op.body.map fun body => body.inline isTTMarkFunction id }

def inlineTTMarkFunctions (mlir_module : ModuleOp K) : ModuleOp K where
  funcs := (mlir_module.funcs.map FuncOp.inline_calls).filter fun func_op => !func_op.to_remove

end TTXla.PJRT

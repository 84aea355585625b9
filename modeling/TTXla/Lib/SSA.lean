import Mathlib.Data.List.Basic
import Mathlib.Logic.Function.Basic

-- Programs in static single assignment form, with nested regions of one block each.
namespace TTXla.SSA

abbrev ValueId := Nat

mutual

-- The operations of a block, up to its terminator. `S` has the symbols, and `K` the operations
-- that are not calls.
inductive Block (S K : Type) where
  | ret (operands : List ValueId)
  | call (callee : S) (operands results : List ValueId) (rest : Block S K)
  | op (kind : K) (symbols : List S) (operands results : List ValueId) (regions : Regions S K)
      (rest : Block S K)

inductive Regions (S K : Type) where
  | nil
  | cons (args : List ValueId) (body : Block S K) (rest : Regions S K)

end

section Syntax

variable {S K : Type}

def Fresh (ids scope : List ValueId) : Prop := ids.Nodup ∧ ∀ v ∈ ids, v ∉ scope

mutual

-- Each operand is defined before it is used, and no value is defined twice in its scope.
def Block.Scoped (scope : List ValueId) : Block S K → Prop
  | .ret operands => ∀ v ∈ operands, v ∈ scope
  | .call _ operands results rest =>
      (∀ v ∈ operands, v ∈ scope) ∧ Fresh results scope ∧ rest.Scoped (results ++ scope)
  | .op _ _ operands results regions rest =>
      (∀ v ∈ operands, v ∈ scope) ∧ regions.Scoped scope ∧ Fresh results scope ∧
        rest.Scoped (results ++ scope)

def Regions.Scoped (scope : List ValueId) : Regions S K → Prop
  | .nil => True
  | .cons args body rest => Fresh args scope ∧ body.Scoped (args ++ scope) ∧ rest.Scoped scope

end

mutual

-- The symbols that the operations refer to.
def Block.refs : Block S K → List S
  | .ret _ => []
  | .call callee _ _ rest => callee :: rest.refs
  | .op _ symbols _ _ regions rest => symbols ++ regions.refs ++ rest.refs

def Regions.refs : Regions S K → List S
  | .nil => []
  | .cons _ body rest => body.refs ++ rest.refs

end

end Syntax

section Semantics

variable {S K V : Type} [Inhabited V]

-- What the functions and the other operations compute.
structure Meaning (S K V : Type) where
  func : S → List V → List V
  op : K → List (List V → List V) → List V → List (List V → List V) → List V

def assign (ρ : ValueId → V) (ids : List ValueId) (vs : List V) : ValueId → V := fun v =>
  if v ∈ ids then ((ids.zip vs).lookup v).getD default else ρ v

mutual

def Block.eval (I : Meaning S K V) (ρ : ValueId → V) : Block S K → List V
  | .ret operands => operands.map ρ
  | .call callee operands results rest =>
      rest.eval I (assign ρ results (I.func callee (operands.map ρ)))
  | .op kind symbols operands results regions rest =>
      rest.eval I (assign ρ results
        (I.op kind (symbols.map I.func) (operands.map ρ) (regions.eval I ρ)))

-- A region is a function of its arguments, in the scope of its operation.
def Regions.eval (I : Meaning S K V) (ρ : ValueId → V) : Regions S K → List (List V → List V)
  | .nil => []
  | .cons args body rest => (fun vs => body.eval I (assign ρ args vs)) :: rest.eval I ρ

end

end Semantics

section Forward

-- Calls of one operand and one result, to some callees, are removed, and their results are
-- replaced by their operands.
variable {S K V : Type} (removed : S → Bool)

def removes (callee : S) (operands results : List ValueId) : Bool :=
  removed callee && operands.length == 1 && results.length == 1

-- `σ` is what each value has been replaced by. The operand of a call stands for its result.
def forward (σ : ValueId → ValueId) (operands results : List ValueId) : ValueId → ValueId :=
  Function.update σ (results.headD 0) (σ (operands.headD 0))

mutual

def Block.inline (σ : ValueId → ValueId) : Block S K → Block S K
  | .ret operands => .ret (operands.map σ)
  | .call callee operands results rest =>
      if removes removed callee operands results then rest.inline (forward σ operands results)
      else .call callee (operands.map σ) results (rest.inline σ)
  | .op kind symbols operands results regions rest =>
      .op kind symbols (operands.map σ) results (regions.inline σ) (rest.inline σ)

def Regions.inline (σ : ValueId → ValueId) : Regions S K → Regions S K
  | .nil => .nil
  | .cons args body rest => .cons args (body.inline σ) (rest.inline σ)

end

mutual

-- The symbols that are referred to in another way.
def Block.other_refs : Block S K → List S
  | .ret _ => []
  | .call callee operands results rest =>
      if removes removed callee operands results then rest.other_refs
      else callee :: rest.other_refs
  | .op _ symbols _ _ regions rest => symbols ++ regions.other_refs ++ rest.other_refs

def Regions.other_refs : Regions S K → List S
  | .nil => []
  | .cons _ body rest => body.other_refs ++ rest.other_refs

end

variable [Inhabited V]

mutual

-- Wherever the result of a removed call is used, it is the value that the chain of calls
-- started from.
def Block.Returns (I : Meaning S K V) (σ : ValueId → ValueId) (ρ : ValueId → V) :
    Block S K → Prop
  | .ret operands => ∀ v ∈ operands, ρ v = ρ (σ v)
  | .call callee operands results rest =>
      let ρ_next := assign ρ results (I.func callee (operands.map ρ))
      if removes removed callee operands results then
        rest.Returns I (forward σ operands results) ρ_next
      else (∀ v ∈ operands, ρ v = ρ (σ v)) ∧ rest.Returns I σ ρ_next
  | .op kind symbols operands results regions rest =>
      (∀ v ∈ operands, ρ v = ρ (σ v)) ∧ regions.Returns I σ ρ ∧
        rest.Returns I σ (assign ρ results
          (I.op kind (symbols.map I.func) (operands.map ρ) (regions.eval I ρ)))

def Regions.Returns (I : Meaning S K V) (σ : ValueId → ValueId) (ρ : ValueId → V) :
    Regions S K → Prop
  | .nil => True
  | .cons args body rest => (∀ vs, body.Returns I σ (assign ρ args vs)) ∧ rest.Returns I σ ρ

end

mutual

-- Both programs side by side: each use that is left reads what the use before reads.
def Block.SameUses (I : Meaning S K V) (σ : ValueId → ValueId) (ρ ρ' : ValueId → V) :
    Block S K → Prop
  | .ret operands => operands.map ρ = (operands.map σ).map ρ'
  | .call callee operands results rest =>
      let ρ_next := assign ρ results (I.func callee (operands.map ρ))
      if removes removed callee operands results then
        rest.SameUses I (forward σ operands results) ρ_next ρ'
      else operands.map ρ = (operands.map σ).map ρ' ∧ rest.SameUses I σ ρ_next
        (assign ρ' results (I.func callee ((operands.map σ).map ρ')))
  | .op kind symbols operands results regions rest =>
      operands.map ρ = (operands.map σ).map ρ' ∧ regions.SameUses I σ ρ ρ' ∧
        rest.SameUses I σ
          (assign ρ results
            (I.op kind (symbols.map I.func) (operands.map ρ) (regions.eval I ρ)))
          (assign ρ' results (I.op kind (symbols.map I.func) ((operands.map σ).map ρ')
            ((regions.inline removed σ).eval I ρ')))

def Regions.SameUses (I : Meaning S K V) (σ : ValueId → ValueId) (ρ ρ' : ValueId → V) :
    Regions S K → Prop
  | .nil => True
  | .cons args body rest =>
      (∀ vs, body.SameUses I σ (assign ρ args vs) (assign ρ' args vs)) ∧ rest.SameUses I σ ρ ρ'

end

end Forward

end TTXla.SSA

import TTXla.Lib.Options
import TTXla.PJRT.RolePropagation

-- The role that each argument of a module ends up with.
namespace TTXla.PJRT.RolePropagation

open Spread

variable {R : Type} {ArgumentTypeStringToEnum : String → Option R} {m : ModuleOp}

section Propagation

-- What the callers of a function pass for an argument.
def callerArgs (m : ModuleOp) (func : String) (arg_index : Nat) : List Value :=
  m.calls.filterMap fun call_op =>
    if call_op.callee = func then call_op.operands[arg_index]? else none

-- The values that a role goes on to.
def next (ArgumentTypeStringToEnum : String → Option R) (m : ModuleOp) (role_attr : String) :
    Value → Option (List Value)
  | .result _ _ => some []
  | .func_argument func arg_index =>
      some (if (ArgumentTypeStringToEnum role_attr).isSome then callerArgs m func arg_index else [])
  | .region_argument op arg_index => (m.operands op)[arg_index]?.map fun operand => [operand]

def annotate (ArgumentTypeStringToEnum : String → Option R) (role_attr : String) :
    Value → ArgAttrs R → ArgAttrs R
  | .func_argument func arg_index, attrs =>
      match ArgumentTypeStringToEnum role_attr with
      | some role => setArgAttr attrs func arg_index role
      | none => attrs
  | _, attrs => attrs

theorem propagateRoleAttribute_eq (role_attr : String) (fuel : Nat) (v : Value)
    (attrs : ArgAttrs R) :
    propagateRoleAttribute ArgumentTypeStringToEnum m role_attr fuel v attrs =
      visit (next ArgumentTypeStringToEnum m role_attr)
        (annotate ArgumentTypeStringToEnum role_attr) fuel v attrs := by
  induction fuel generalizing v attrs with
  | zero => rfl
  | succ fuel ih =>
      cases v with
      | result op index => rfl
      | region_argument op arg_index =>
          simp only [propagateRoleAttribute, visit, next, annotate, ih]
          cases (m.operands op)[arg_index]? <;> simp
      | func_argument func arg_index =>
          cases hrole : ArgumentTypeStringToEnum role_attr with
          | none => simp [propagateRoleAttribute, visit, next, annotate, hrole]
          | some role =>
              simp only [propagateRoleAttribute, visit, next, annotate, hrole, Option.isSome_some,
                if_true, Option.bind_eq_bind, Option.bind_some, callerArgs, List.foldlM_filterMap,
                ih]
              congr 1
              funext attrs call_op
              split_ifs with hcallee
              · cases call_op.operands[arg_index]? <;> rfl
              · rfl

end Propagation

section Roles

-- The marked operands, in the order of the walk.
def marks (m : ModuleOp) : List (Value × String) :=
  m.calls.flatMap fun call_op =>
    match call_op.role_attr with
    | none => []
    | some role_attr => call_op.operands.map fun operand => (operand, role_attr)

theorem propagateInputRoleAttributes_eq (fuel : Nat) (attrs : ArgAttrs R) :
    propagateInputRoleAttributes ArgumentTypeStringToEnum m fuel attrs =
      (marks m).foldlM (fun attrs mark =>
        propagateRoleAttribute ArgumentTypeStringToEnum m mark.2 fuel mark.1 attrs) attrs := by
  rw [propagateInputRoleAttributes, marks, Options.foldlM_flatMap]
  congr 1
  funext attrs call_op
  cases call_op.role_attr with
  | none => rfl
  | some role_attr => rw [List.foldlM_map]

-- The mark of an operand gives its role to what the operand comes from.
def Gives (ArgumentTypeStringToEnum : String → Option R) (m : ModuleOp) (mark : Value × String)
    (func : String) (arg_index : Nat) : Prop :=
  (ArgumentTypeStringToEnum mark.2).isSome ∧
    Reaches (next ArgumentTypeStringToEnum m mark.2) mark.1 (.func_argument func arg_index)

theorem foldl_annotate (role_attr : String) (order : List Value) (attrs : ArgAttrs R)
    (func : String) (arg_index : Nat) :
    order.foldl (fun attrs v => annotate ArgumentTypeStringToEnum role_attr v attrs) attrs func
        arg_index =
      if (ArgumentTypeStringToEnum role_attr).isSome ∧ .func_argument func arg_index ∈ order then
        ArgumentTypeStringToEnum role_attr
      else attrs func arg_index := by
  induction order generalizing attrs with
  | nil => simp
  | cons v order ih =>
      rw [List.foldl_cons, ih]
      cases hrole : ArgumentTypeStringToEnum role_attr with
      | none => cases v <;> simp [annotate, hrole]
      | some role =>
          by_cases hmem : Value.func_argument func arg_index ∈ order
          · simp [hmem]
          · cases v with
            | func_argument f i => simp [annotate, hrole, hmem, setArgAttr]
            | region_argument op i => simp [annotate, hmem]
            | result op i => simp [annotate, hmem]

theorem propagate_settled {mark : Value × String}
    (h : Settled (next ArgumentTypeStringToEnum m mark.2) mark.1) :
    ∃ n, ∀ fuel, n ≤ fuel → ∀ attrs, ∃ attrs',
      propagateRoleAttribute ArgumentTypeStringToEnum m mark.2 fuel mark.1 attrs = some attrs' ∧
      ∀ func arg_index,
        (Gives ArgumentTypeStringToEnum m mark func arg_index →
          attrs' func arg_index = ArgumentTypeStringToEnum mark.2) ∧
        (¬ Gives ArgumentTypeStringToEnum m mark func arg_index →
          attrs' func arg_index = attrs func arg_index) := by
  obtain ⟨order, horder, n, hn⟩ := h.performs (annotate ArgumentTypeStringToEnum mark.2)
  refine ⟨n, fun fuel hfuel attrs => ⟨_, (propagateRoleAttribute_eq _ _ _ _).trans
    (hn fuel hfuel attrs), fun func arg_index => ?_⟩⟩
  rw [foldl_annotate]
  exact ⟨fun hgives => if_pos (hgives.imp_right (horder _).mpr),
    fun hgives => if_neg fun hmem => hgives (hmem.imp_right (horder _).mp)⟩

-- An argument has the role of the last mark that is given to it, or the role it had.
def Takes (ArgumentTypeStringToEnum : String → Option R) (m : ModuleOp)
    (marks : List (Value × String)) (attrs attrs' : ArgAttrs R) (func : String)
    (arg_index : Nat) : Prop :=
  (∃ before mark after, marks = before ++ mark :: after ∧
    Gives ArgumentTypeStringToEnum m mark func arg_index ∧
    (∀ later ∈ after, ¬ Gives ArgumentTypeStringToEnum m later func arg_index) ∧
    attrs' func arg_index = ArgumentTypeStringToEnum mark.2) ∨
  ((∀ mark ∈ marks, ¬ Gives ArgumentTypeStringToEnum m mark func arg_index) ∧
    attrs' func arg_index = attrs func arg_index)

theorem propagate_all {marks : List (Value × String)}
    (h : ∀ mark ∈ marks, Settled (next ArgumentTypeStringToEnum m mark.2) mark.1) :
    ∃ n, ∀ fuel, n ≤ fuel → ∀ attrs, ∃ attrs',
      marks.foldlM (fun attrs mark =>
        propagateRoleAttribute ArgumentTypeStringToEnum m mark.2 fuel mark.1 attrs) attrs =
          some attrs' ∧
      ∀ func arg_index, Takes ArgumentTypeStringToEnum m marks attrs attrs' func arg_index := by
  induction marks with
  | nil => exact ⟨0, fun _ _ attrs => ⟨attrs, rfl, fun _ _ =>
      .inr ⟨fun _ hmark => absurd hmark List.not_mem_nil, rfl⟩⟩⟩
  | cons mark marks ih =>
      obtain ⟨n, hn⟩ := propagate_settled (h mark List.mem_cons_self)
      obtain ⟨k, hk⟩ := ih fun later hlater => h later (List.mem_cons_of_mem _ hlater)
      refine ⟨max n k, fun fuel hfuel attrs => ?_⟩
      obtain ⟨attrs₁, hfirst, hgives⟩ :=
        hn fuel (Nat.le_trans (Nat.le_max_left n k) hfuel) attrs
      obtain ⟨attrs', hrest, htakes⟩ :=
        hk fuel (Nat.le_trans (Nat.le_max_right n k) hfuel) attrs₁
      refine ⟨attrs', ?_, fun func arg_index => ?_⟩
      · rw [List.foldlM_cons, hfirst]
        exact hrest
      · obtain ⟨before, later, after, hmarks, hlast⟩ | ⟨hnone, hsame⟩ := htakes func arg_index
        · exact .inl ⟨mark :: before, later, after, by rw [hmarks]; rfl, hlast⟩
        · by_cases hmark : Gives ArgumentTypeStringToEnum m mark func arg_index
          · exact .inl ⟨[], mark, marks, rfl, hmark, hnone,
              hsame.trans ((hgives func arg_index).1 hmark)⟩
          · exact .inr ⟨List.forall_mem_cons.mpr ⟨hmark, hnone⟩,
              hsame.trans ((hgives func arg_index).2 hmark)⟩

end Roles

section Defaults

def default_args (func : String) (n : Nat) (input : R) (attrs : ArgAttrs R) : ArgAttrs R :=
  (List.range n).foldl (fun attrs i =>
    if (attrs func i).isSome then attrs else setArgAttr attrs func i input) attrs

theorem default_args_apply (func : String) (n : Nat) (input : R) (attrs : ArgAttrs R) (f : String)
    (i : Nat) : default_args func n input attrs f i =
      if f = func ∧ i < n then some ((attrs f i).getD input) else attrs f i := by
  induction n generalizing f i with
  | zero => simp [default_args]
  | succ n ih =>
      have hstep : default_args func (n + 1) input attrs =
          if (default_args func n input attrs func n).isSome then default_args func n input attrs
          else setArgAttr (default_args func n input attrs) func n input := by
        rw [default_args, List.range_succ, List.foldl_append]
        rfl
      have hlast : default_args func n input attrs func n = attrs func n := by
        rw [ih, if_neg fun h => Nat.lt_irrefl n h.2]
      by_cases hargs : f = func ∧ i = n
      · obtain ⟨rfl, rfl⟩ := hargs
        rw [hstep, hlast, if_pos (⟨rfl, Nat.lt_succ_self i⟩ : f = f ∧ i < i + 1)]
        cases hattr : attrs f i with
        | none => simp [setArgAttr]
        | some role => simp [hlast, hattr]
      · have hother : default_args func (n + 1) input attrs f i =
            default_args func n input attrs f i := by
          rw [hstep]
          split_ifs
          · rfl
          · exact if_neg hargs
        rw [hother, ih]
        refine if_congr ⟨fun h => ⟨h.1, Nat.lt_succ_of_lt h.2⟩, fun h => ⟨h.1, ?_⟩⟩ rfl rfl
        have hne : i ≠ n := fun heq => hargs ⟨h.1, heq⟩
        omega

theorem default_kept (input : R) (funcs : List (String × Nat)) (attrs : ArgAttrs R) {func : String}
    {arg_index : Nat} {role : R} (h : attrs func arg_index = some role) :
    funcs.foldl (fun attrs e => default_args e.1 e.2 input attrs) attrs func arg_index =
      some role := by
  induction funcs generalizing attrs with
  | nil => exact h
  | cons e funcs ih =>
      have hhead := default_args_apply e.1 e.2 input attrs func arg_index
      rw [h] at hhead
      refine ih _ (hhead.trans ?_)
      split_ifs <;> rfl

theorem default_role (input : R) (attrs : ArgAttrs R) {func : String} {n arg_index : Nat}
    (hfunc : (func, n) ∈ m.funcs) (harg : arg_index < n) :
    setDefaultRoleForUnannotatedArguments m input attrs func arg_index =
      some ((attrs func arg_index).getD input) := by
  show m.funcs.foldl (fun attrs e => default_args e.1 e.2 input attrs) attrs func arg_index = _
  generalize m.funcs = funcs at hfunc
  induction funcs generalizing attrs with
  | nil => exact absurd hfunc List.not_mem_nil
  | cons e funcs ih =>
      have hhead := default_args_apply e.1 e.2 input attrs func arg_index
      by_cases hfound : func = e.1 ∧ arg_index < e.2
      · rw [if_pos hfound] at hhead
        exact default_kept input funcs _ hhead
      · rw [if_neg hfound] at hhead
        obtain rfl | hfunc := List.mem_cons.mp hfunc
        · exact absurd ⟨rfl, harg⟩ hfound
        · rw [List.foldl_cons, ih _ hfunc, hhead]

-- The pass ends just when no mark is traced for ever or out of range, and then every argument
-- has the role of the last mark that is given to it, else its own, else that of an input.
theorem roles_annotated_iff (m : ModuleOp) (input : R) (attrs : ArgAttrs R) :
    (∃ n, ∀ fuel, n ≤ fuel → ∃ attrs',
      propagateInputRoleAttributes ArgumentTypeStringToEnum m fuel attrs = some attrs' ∧
      (∀ func arg_index,
        Takes ArgumentTypeStringToEnum m (marks m) attrs attrs' func arg_index) ∧
      ∀ func n arg_index, (func, n) ∈ m.funcs → arg_index < n →
        setDefaultRoleForUnannotatedArguments m input attrs' func arg_index =
          some ((attrs' func arg_index).getD input)) ↔
      ∀ mark ∈ marks m, Settled (next ArgumentTypeStringToEnum m mark.2) mark.1 := by
  constructor
  · rintro ⟨n, hn⟩ mark hmark
    obtain ⟨attrs', hpass, _⟩ := hn n (Nat.le_refl n)
    rw [propagateInputRoleAttributes_eq] at hpass
    obtain ⟨t, t', ht⟩ := exists_of_foldlM hpass mark hmark
    rw [propagateRoleAttribute_eq] at ht
    exact settled_of_visit ht
  · intro h
    obtain ⟨n, hn⟩ := propagate_all h
    refine ⟨n, fun fuel hfuel => ?_⟩
    obtain ⟨attrs', hpass, htakes⟩ := hn fuel hfuel attrs
    refine ⟨attrs', ?_, htakes,
      fun func n arg_index hfunc harg => default_role input attrs' hfunc harg⟩
    rw [propagateInputRoleAttributes_eq]
    exact hpass

end Defaults

-- A mark inside a layer reaches the argument of `main` that is passed to it.
private def layered : ModuleOp where
  funcs := [("main", 2), ("layer", 1)]
  calls := [⟨"layer", [.func_argument "main" 1], none⟩,
    ⟨"tt.mark_parameter", [.func_argument "layer" 0], some "parameter"⟩]
  operands := fun _ => []

example : (propagateInputRoleAttributes (fun s => if s = "parameter" then some 1 else none)
    layered 3 (fun _ _ => none)).map (fun attrs =>
      let attrs := setDefaultRoleForUnannotatedArguments layered 0 attrs
      (attrs "main" 0, attrs "main" 1, attrs "layer" 0)) = some (some 0, some 1, some 1) := by
  decide

end TTXla.PJRT.RolePropagation

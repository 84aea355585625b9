import TTXla.Lib.SSA.Inlining
import TTXla.PJRT.InlineMarks

-- The modules that mean the same without their `tt.mark` calls.
namespace TTXla.PJRT

open SSA

variable {K V : Type} [Inhabited V]

namespace ModuleOp

-- What the verifier checks: the symbols are unique and defined, and so are the values.
structure WellFormed (m : ModuleOp K) : Prop where
  names : (m.funcs.map FuncOp.sym_name).Nodup
  values : ∀ f ∈ m.funcs, ∀ body, f.body = some body → f.args.Nodup ∧ body.Scoped f.args
  closed : ∀ f ∈ m.funcs, ∀ body, f.body = some body →
    ∀ s ∈ body.refs, s ∈ m.funcs.map FuncOp.sym_name

end ModuleOp

-- The values at the entry of a function.
def FuncOp.entry (f : FuncOp K) (args : List V) : ValueId → V :=
  assign (fun _ => default) f.args args

-- The functions compute what their bodies compute.
def Solves (I : Meaning String K V) (m : ModuleOp K) : Prop :=
  ∀ f ∈ m.funcs, ∀ body, f.body = some body → ∀ args : List V, args.length = f.args.length →
    I.func f.sym_name args = body.eval I (f.entry args)

-- The module after the pass: it is well-formed and refers to no erased function, the uses of the
-- removed results read what the calls returned, and the functions compute the same.
structure Keeps (I : Meaning String K V) (m : ModuleOp K) : Prop where
  wellFormed : (inlineTTMarkFunctions m).WellFormed
  no_dangling : ∀ f ∈ (inlineTTMarkFunctions m).funcs, ∀ body, f.body = some body →
    ∀ g ∈ functions_to_remove m, g.sym_name ∉ body.refs
  uses : ∀ f ∈ m.funcs, f.to_remove = false → ∀ body, f.body = some body →
    ∀ args : List V, args.length = f.args.length →
      body.SameUses isTTMarkFunction I id (f.entry args) (f.entry args)
  solves : Solves I (inlineTTMarkFunctions m)

-- The private marks are only called with one operand and one result, and where the result of
-- such a call of a mark is used, the call returned its operand.
structure Removable (I : Meaning String K V) (m : ModuleOp K) : Prop where
  calls : ∀ f ∈ m.funcs, f.to_remove = false → ∀ body, f.body = some body →
    ∀ g ∈ functions_to_remove m, g.sym_name ∉ body.other_refs isTTMarkFunction
  returns : ∀ f ∈ m.funcs, f.to_remove = false → ∀ body, f.body = some body →
    ∀ args : List V, args.length = f.args.length →
      body.Returns isTTMarkFunction I id (f.entry args)

section Pass

variable {m : ModuleOp K}

theorem mem_inlined {f : FuncOp K} :
    f ∈ (inlineTTMarkFunctions m).funcs ↔
      ∃ g ∈ m.funcs, g.to_remove = false ∧ g.inline_calls = f := by
  unfold inlineTTMarkFunctions
  rw [List.mem_filter, List.mem_map]
  constructor
  · rintro ⟨⟨g, hg, rfl⟩, hkept⟩
    exact ⟨g, hg, (Bool.not_eq_true' _).mp hkept, rfl⟩
  · rintro ⟨g, hg, hkept, rfl⟩
    refine ⟨⟨g, hg, rfl⟩, ?_⟩
    rw [show g.inline_calls.to_remove = g.to_remove from rfl, hkept]
    rfl

theorem body_inlined {f : FuncOp K} {body : Block String K}
    (h : f.inline_calls.body = some body) :
    ∃ old, f.body = some old ∧ old.inline isTTMarkFunction id = body :=
  Option.map_eq_some_iff.mp h

theorem forwards_id (scope : List ValueId) : Forwards scope id :=
  ⟨fun _ hv => hv, fun _ _ => rfl, fun _ _ => rfl⟩

theorem names_inlined : (inlineTTMarkFunctions m).funcs.map FuncOp.sym_name =
    (m.funcs.filter fun f => !f.to_remove).map FuncOp.sym_name := by
  unfold inlineTTMarkFunctions
  rw [List.filter_map, List.map_map]
  rfl

theorem uses_iff (hm : m.WellFormed) (I : Meaning String K V) {f : FuncOp K} (hf : f ∈ m.funcs)
    {body : Block String K} (hbody : f.body = some body) (args : List V) :
    (body.SameUses isTTMarkFunction I id (f.entry args) (f.entry args) ↔
        body.Returns isTTMarkFunction I id (f.entry args)) ∧
      (body.Returns isTTMarkFunction I id (f.entry args) →
        (body.inline isTTMarkFunction id).eval I (f.entry args) = body.eval I (f.entry args)) :=
  Block.sameUses_iff I body (forwards_id f.args) (fun _ _ _ => rfl) (hm.values f hf body hbody).2

-- Only the functions that stay have to be defined.
theorem wellFormed_inlined (hm : m.WellFormed)
    (hcalls : ∀ f ∈ m.funcs, f.to_remove = false → ∀ body, f.body = some body →
      ∀ g ∈ functions_to_remove m, g.sym_name ∉ body.other_refs isTTMarkFunction) :
    (inlineTTMarkFunctions m).WellFormed := by
  refine ⟨?_, fun f hf body hbody => ?_, fun f hf body hbody s hs => ?_⟩
  · rw [names_inlined]
    exact hm.names.sublist (List.filter_sublist.map _)
  · obtain ⟨g, hg, hkept, rfl⟩ := mem_inlined.mp hf
    obtain ⟨old, hold, rfl⟩ := body_inlined hbody
    obtain ⟨hargs, hscoped⟩ := hm.values g hg old hold
    exact ⟨hargs, Block.scoped_inline old (forwards_id g.args) (fun _ hv => hv) (fun _ hv => hv)
      hscoped⟩
  · obtain ⟨g, hg, hkept, rfl⟩ := mem_inlined.mp hf
    obtain ⟨old, hold, rfl⟩ := body_inlined hbody
    rw [Block.refs_inline] at hs
    obtain ⟨callee, hcallee, rfl⟩ :=
      List.mem_map.mp (hm.closed g hg old hold s (Block.other_refs_subset old s hs))
    have hstays : callee.to_remove = false := by
      by_contra hremove
      rw [Bool.not_eq_false] at hremove
      exact hcalls g hg hkept old hold callee (List.mem_filter.mpr ⟨hcallee, hremove⟩) hs
    rw [names_inlined]
    exact List.mem_map_of_mem (List.mem_filter.mpr ⟨hcallee, by rw [hstays]; rfl⟩)

theorem keeps_module_iff (hm : m.WellFormed) {I : Meaning String K V} (hI : Solves I m) :
    Keeps I m ↔ Removable I m := by
  constructor
  · intro h
    refine ⟨fun f hf hkept body hbody g hg hmem => ?_, fun f hf hkept body hbody args hargs => ?_⟩
    · have hinlined : f.inline_calls.body = some (body.inline isTTMarkFunction id) := by
        rw [FuncOp.inline_calls, hbody]
        rfl
      refine h.no_dangling f.inline_calls (mem_inlined.mpr ⟨f, hf, hkept, rfl⟩) _ hinlined g hg ?_
      rwa [Block.refs_inline]
    · exact (uses_iff hm I hf hbody args).1.mp (h.uses f hf hkept body hbody args hargs)
  · intro h
    refine ⟨wellFormed_inlined hm h.calls, fun f hf body hbody g hg hmem => ?_,
      fun f hf hkept body hbody args hargs => ?_, fun f hf body hbody args hargs => ?_⟩
    · obtain ⟨old_func, hold_func, hkept, rfl⟩ := mem_inlined.mp hf
      obtain ⟨old, hold, rfl⟩ := body_inlined hbody
      rw [Block.refs_inline] at hmem
      exact h.calls old_func hold_func hkept old hold g hg hmem
    · exact (uses_iff hm I hf hbody args).1.mpr (h.returns f hf hkept body hbody args hargs)
    · obtain ⟨old_func, hold_func, hkept, rfl⟩ := mem_inlined.mp hf
      obtain ⟨old, hold, rfl⟩ := body_inlined hbody
      have hreturns := h.returns old_func hold_func hkept old hold args hargs
      exact (hI old_func hold_func old hold args hargs).trans
        ((uses_iff hm I hold_func hold args).2 hreturns).symm

-- What the frontend emits: a mark takes one argument and returns it.
def FuncOp.IsIdentity (f : FuncOp K) : Prop := ∃ arg, f.args = [arg] ∧ f.body = some (.ret [arg])

theorem identity_of_body {I : Meaning String K V} (hI : Solves I m) {f : FuncOp K}
    (hf : f ∈ m.funcs) (h : f.IsIdentity) (x : V) : I.func f.sym_name [x] = [x] := by
  obtain ⟨arg, hargs, hbody⟩ := h
  rw [hI f hf _ hbody [x] (by rw [hargs]; rfl)]
  simp [FuncOp.entry, hargs, Block.eval, assign]

-- The marks that are identities can be removed when they are called as such.
theorem removable_of_identities (hm : m.WellFormed) {I : Meaning String K V} (hI : Solves I m)
    (hmarks : ∀ f ∈ m.funcs, isTTMarkFunction f.sym_name = true → f.IsIdentity)
    (hcalls : ∀ f ∈ m.funcs, f.to_remove = false → ∀ body, f.body = some body →
      ∀ g ∈ functions_to_remove m, g.sym_name ∉ body.other_refs isTTMarkFunction) :
    Removable I m := by
  refine ⟨hcalls, fun f hf hkept body hbody args hargs => ?_⟩
  refine Block.returns_of_identity I body (forwards_id f.args) (fun _ _ => rfl)
    (hm.values f hf body hbody).2 fun s hs hmark x => ?_
  obtain ⟨callee, hcallee, rfl⟩ := List.mem_map.mp (hm.closed f hf body hbody s hs)
  exact identity_of_body hI hcallee (hmarks callee hcallee hmark) x

end Pass

section Examples

-- `main` calls a mark with one argument and returns the result.
def marked_argument : ModuleOp Unit where
  funcs := [
    { sym_name := "tt.mark_argument", is_private := true, args := [0], body := some (.ret [0]) },
    { sym_name := "main", is_private := false, args := [0],
      body := some (.call "tt.mark_argument" [0] [1] (.ret [1])) }]

def identities : Meaning String Unit Nat where
  func _ args := args
  op _ _ args _ := args

theorem marked_argument_wellFormed : marked_argument.WellFormed := by
  refine ⟨by decide, ?_, ?_⟩
  · simp [marked_argument, Block.Scoped, Fresh]
  · simp [marked_argument, Block.refs]

theorem identities_solve : Solves identities marked_argument := by
  intro f hf body hbody args hargs
  obtain rfl | rfl := List.mem_pair.mp hf
  all_goals
    obtain ⟨x, rfl⟩ := List.length_eq_one_iff.mp hargs
    obtain rfl := Option.some.inj hbody
    rfl

theorem marked_argument_kept : Keeps identities marked_argument := by
  refine (keeps_module_iff marked_argument_wellFormed identities_solve).mpr ?_
  refine removable_of_identities marked_argument_wellFormed identities_solve ?_ ?_
  · intro f hf hmark
    obtain rfl | rfl := List.mem_pair.mp hf
    · exact ⟨0, rfl, rfl⟩
    · exact absurd hmark (by decide)
  · intro f hf hkept body hbody g hg
    obtain rfl | rfl := List.mem_pair.mp hf
    · exact absurd hkept (by decide)
    · obtain rfl := Option.some.inj hbody
      exact List.not_mem_nil

-- A mark with two operands is erased, and the call of it stays.
def marked_pair : ModuleOp Unit where
  funcs := [
    { sym_name := "tt.mark_pair", is_private := true, args := [0, 1], body := some (.ret [0]) },
    { sym_name := "main", is_private := false, args := [0, 1],
      body := some (.call "tt.mark_pair" [0, 1] [2] (.ret [2])) }]

def first_args : Meaning String Unit Nat where
  func _ args := args.take 1
  op _ _ args _ := args

theorem marked_pair_wellFormed : marked_pair.WellFormed := by
  refine ⟨by decide, ?_, ?_⟩
  · simp [marked_pair, Block.Scoped, Fresh]
  · simp [marked_pair, Block.refs]

theorem first_args_solve : Solves first_args marked_pair := by
  intro f hf body hbody args hargs
  obtain rfl | rfl := List.mem_pair.mp hf
  all_goals
    obtain ⟨x, y, rfl⟩ := List.length_eq_two.mp hargs
    obtain rfl := Option.some.inj hbody
    rfl

theorem pair_mark_dangles : ¬ ∀ m : ModuleOp Unit, m.WellFormed → ∀ I : Meaning String Unit Nat,
    Solves I m → Keeps I m := by
  intro h
  have hkeeps := h marked_pair marked_pair_wellFormed first_args first_args_solve
  refine hkeeps.no_dangling _ (mem_inlined.mpr ⟨_, List.mem_cons_of_mem _ List.mem_cons_self,
    by decide, rfl⟩) _ rfl _ (List.mem_filter.mpr ⟨List.mem_cons_self, by decide⟩) ?_
  exact List.mem_cons_self

end Examples

end TTXla.PJRT

import TTXla.PJRT.MarkCustomCalls
import Mathlib.Data.List.Nodup
import Mathlib.Logic.Relation

namespace TTXla.PJRT.MarkCustomCalls

open OpList Relation

variable {R K : Type} (ArgumentTypeStringToEnum : String → Option R)

section Marks

def arg_update (op : Op BlockArgument (OpKind K)) : Option (ArgUpdate R) :=
  match match_op ArgumentTypeStringToEnum op.kind op.operands.length with
  | .success arg_update => some arg_update
  | _ => none

def marked (op : Op BlockArgument (OpKind K)) : Bool :=
  (arg_update ArgumentTypeStringToEnum op).isSome

def annotate (attrs : ArgAttrs R) (op : Op BlockArgument (OpKind K)) : ArgAttrs R :=
  match arg_update ArgumentTypeStringToEnum op with
  | some arg_update => arg_update.apply attrs
  | none => attrs

def roots (ops : List (Op BlockArgument (OpKind K))) (op : Op BlockArgument (OpKind K)) :
    List BlockArgument :=
  op.operands.flatMap (getBlockArguments ops)

def reaches (ops : List (Op BlockArgument (OpKind K))) (func : String) (arg_index : Nat)
    (op : Op BlockArgument (OpKind K)) : Bool :=
  .func func arg_index ∈ roots ops op

-- The attributes once the marks have been rewritten in an order.
def uplifted (m : Module R K) (order : List (Op BlockArgument (OpKind K))) (func : String)
    (arg_index : Nat) : ArgAttrs R :=
  (order.filter (reaches m.ops func arg_index)).foldl (annotate ArgumentTypeStringToEnum)
    (m.arg_attrs func arg_index)

variable {ArgumentTypeStringToEnum}

theorem argument_success {op : CustomCallOp} {num_operands : Nat} {a : ArgUpdate R}
    (h : PopulateArgumentAttrsFromTTMark ArgumentTypeStringToEnum op num_operands = .success a) :
    num_operands = 1 := by
  unfold PopulateArgumentAttrsFromTTMark at h
  split at h
  · cases h
  · split at h
    · cases h
    · omega

theorem weight_dtype_success {op : CustomCallOp} {num_operands : Nat} {a : ArgUpdate R}
    (h : PopulateWeightDtypeFromCustomCall op num_operands = .success a) : num_operands = 1 := by
  unfold PopulateWeightDtypeFromCustomCall at h
  split at h
  · cases h
  · split at h
    · cases h
    · omega

theorem match_op_success {kind : OpKind K} {num_operands : Nat} {a : ArgUpdate R}
    (h : match_op ArgumentTypeStringToEnum kind num_operands = .success a) :
    num_operands = 1 := by
  cases kind with
  | other kind => cases h
  | custom_call op =>
      cases hmark : PopulateArgumentAttrsFromTTMark ArgumentTypeStringToEnum op num_operands with
      | failure =>
          simp only [match_op, hmark] at h
          exact weight_dtype_success h
      | fatal => simp only [match_op, hmark, reduceCtorEq] at h
      | success b => exact argument_success hmark

theorem marked_iff {op : Op BlockArgument (OpKind K)} :
    marked ArgumentTypeStringToEnum op ↔ ∃ a input, op.operands = [input] ∧
      arg_update ArgumentTypeStringToEnum op = some a := by
  constructor
  · intro h
    obtain ⟨a, ha⟩ := Option.isSome_iff_exists.mp h
    refine ⟨a, ?_⟩
    cases hmatch : match_op ArgumentTypeStringToEnum op.kind op.operands.length with
    | failure => rw [arg_update, hmatch] at ha; cases ha
    | fatal => rw [arg_update, hmatch] at ha; cases ha
    | success b =>
        obtain ⟨input, hinput⟩ := List.length_eq_one_iff.mp (match_op_success hmatch)
        exact ⟨input, hinput, ha⟩
  · rintro ⟨a, _, _, ha⟩
    exact Option.isSome_iff_exists.mpr ⟨a, ha⟩

theorem arg_update_eq_some {op : Op BlockArgument (OpKind K)} {a : ArgUpdate R} :
    arg_update ArgumentTypeStringToEnum op = some a ↔
      match_op ArgumentTypeStringToEnum op.kind op.operands.length = .success a := by
  rw [arg_update]
  cases match_op ArgumentTypeStringToEnum op.kind op.operands.length <;> simp

-- What a rewrite does, and when it does it.
theorem matchAndRewrite_success {m m' : Module R K} {op : Op BlockArgument (OpKind K)} :
    matchAndRewrite ArgumentTypeStringToEnum m op = .success m' ↔
      ∃ a input, op.operands = [input] ∧ arg_update ArgumentTypeStringToEnum op = some a ∧
        (getBlockArguments m.ops input).all BlockArgument.of_function ∧
        m' = {
          ops := replaceOp m.ops op.id input
          arg_attrs := (getBlockArguments m.ops input).foldl (setArgAttr a) m.arg_attrs } := by
  simp only [arg_update_eq_some]
  constructor
  · intro h
    cases hmatch : match_op ArgumentTypeStringToEnum op.kind op.operands.length with
    | failure => simp [matchAndRewrite, hmatch] at h
    | fatal => simp [matchAndRewrite, hmatch] at h
    | success a =>
        obtain ⟨input, hinput⟩ := List.length_eq_one_iff.mp (match_op_success hmatch)
        rw [hinput] at hmatch
        simp only [matchAndRewrite, hinput, hmatch] at h
        split at h
        · rename_i hall
          exact ⟨a, input, hinput, rfl, hall, (Match.success.inj h).symm⟩
        · cases h
  · rintro ⟨a, input, hinput, ha, hall, rfl⟩
    rw [hinput] at ha
    simp only [matchAndRewrite, hinput, ha, hall, if_true]

theorem not_marked_of_failure {m : Module R K} {op : Op BlockArgument (OpKind K)}
    (h : matchAndRewrite ArgumentTypeStringToEnum m op = .failure) :
    marked ArgumentTypeStringToEnum op = false := by
  rw [Bool.eq_false_iff]
  intro hmarked
  obtain ⟨a, input, hinput, ha⟩ := marked_iff.mp hmarked
  rw [arg_update_eq_some, hinput] at ha
  simp only [matchAndRewrite, hinput, ha] at h
  split at h <;> cases h

theorem failure_of_not_marked {m : Module R K} {op : Op BlockArgument (OpKind K)}
    (h : marked ArgumentTypeStringToEnum op = false)
    (hsound : matchAndRewrite ArgumentTypeStringToEnum m op ≠ .fatal) :
    matchAndRewrite ArgumentTypeStringToEnum m op = .failure := by
  cases hmatch : matchAndRewrite ArgumentTypeStringToEnum m op with
  | failure => rfl
  | fatal => exact absurd hmatch hsound
  | success m' =>
      obtain ⟨a, input, hinput, ha, _⟩ := matchAndRewrite_success.mp hmatch
      exact absurd (marked_iff.mpr ⟨a, input, hinput, ha⟩) (by simp [h])

theorem apply_idem (arg_update : ArgUpdate R) (attrs : ArgAttrs R) :
    arg_update.apply (arg_update.apply attrs) = arg_update.apply attrs := by
  cases arg_update <;> rfl

theorem setArgAttr_apply (a : ArgUpdate R) (arg_attrs : String → Nat → ArgAttrs R)
    (blockArg : BlockArgument) (func : String) (arg_index : Nat) :
    setArgAttr a arg_attrs blockArg func arg_index =
      if blockArg = .func func arg_index then a.apply (arg_attrs func arg_index)
      else arg_attrs func arg_index := by
  cases blockArg with
  | region op i => rfl
  | func f i =>
      simp only [setArgAttr, BlockArgument.func.injEq, eq_comm (a := func),
        eq_comm (a := arg_index)]

theorem foldl_setArgAttr (a : ArgUpdate R) (blockArgs : List BlockArgument)
    (arg_attrs : String → Nat → ArgAttrs R) (func : String) (arg_index : Nat) :
    blockArgs.foldl (setArgAttr a) arg_attrs func arg_index =
      if .func func arg_index ∈ blockArgs then a.apply (arg_attrs func arg_index)
      else arg_attrs func arg_index := by
  induction blockArgs generalizing arg_attrs with
  | nil => rfl
  | cons blockArg blockArgs ih =>
      rw [List.foldl_cons, ih, setArgAttr_apply]
      by_cases hfirst : blockArg = .func func arg_index
      · rw [if_pos hfirst, apply_idem, ite_self, if_pos (hfirst ▸ List.mem_cons_self)]
      · have hmem : .func func arg_index ∈ blockArg :: blockArgs ↔
            .func func arg_index ∈ blockArgs := by
          rw [List.mem_cons, or_iff_right (Ne.symm hfirst)]
        simp only [if_neg hfirst, hmem]

end Marks

section Values

-- Operations of the marked kinds hand their operand on.
def Passes {V : Type} (I : OpId → OpKind K → List V → Nat → V) : Prop :=
  ∀ id kind a, match_op ArgumentTypeStringToEnum kind 1 = .success a →
    ∀ x index, I id kind [x] index = x

def mapOperands (σ : Value BlockArgument → Value BlockArgument)
    (op : Op BlockArgument (OpKind K)) : Op BlockArgument (OpKind K) :=
  { op with operands := op.operands.map σ }

-- A mark stands for its operand, any other operation for itself.
def unmark_op (id : OpId) (kind : OpKind K) (vs : List (Value BlockArgument)) (index : Nat) :
    Value BlockArgument :=
  match match_op ArgumentTypeStringToEnum kind vs.length, vs with
  | .success _, v :: _ => v
  | _, _ => .result id index

instance : Inhabited (Value BlockArgument) := ⟨.result 0 0⟩

def unmark (ops : List (Op BlockArgument (OpKind K))) : Value BlockArgument →
    Value BlockArgument :=
  value (unmark_op ArgumentTypeStringToEnum) .argument ops

variable {ArgumentTypeStringToEnum}

theorem arg_update_mapOperands (σ : Value BlockArgument → Value BlockArgument)
    (op : Op BlockArgument (OpKind K)) :
    arg_update ArgumentTypeStringToEnum (mapOperands σ op) =
      arg_update ArgumentTypeStringToEnum op := by
  rw [arg_update, arg_update, mapOperands, List.length_map]

theorem getBlockArguments_eq_value (ops : List (Op BlockArgument (OpKind K)))
    (v : Value BlockArgument) :
    getBlockArguments ops v = value (fun _ _ vs _ => vs.flatten) ([·]) ops v := by
  induction ops generalizing v with
  | nil => cases v <;> simp only [getBlockArguments, value]; rfl
  | cons definingOp ops ih =>
      cases v with
      | argument a => simp only [getBlockArguments, value]
      | result op index =>
          have hvalues : getBlockArguments ops = value (fun _ _ vs _ => vs.flatten) ([·]) ops :=
            funext ih
          rw [getBlockArguments, value, hvalues, List.flatMap_def]

theorem passes_flatten : Passes (K := K) ArgumentTypeStringToEnum
    (fun _ _ (vs : List (List BlockArgument)) _ => vs.flatten) := by
  intro id kind a _ x index
  exact List.flatten_singleton

theorem passes_unmark :
    Passes ArgumentTypeStringToEnum (unmark_op (K := K) ArgumentTypeStringToEnum) := by
  intro id kind a hmatch x index
  simp only [unmark_op, List.length_singleton, hmatch]

theorem unmark_op_of_not_marked {op : Op BlockArgument (OpKind K)}
    (h : marked ArgumentTypeStringToEnum op = false) {vs : List (Value BlockArgument)}
    (hlength : vs.length = op.operands.length) (index : Nat) :
    unmark_op ArgumentTypeStringToEnum op.id op.kind vs index = .result op.id index := by
  cases hmatch : match_op ArgumentTypeStringToEnum op.kind op.operands.length with
  | failure => simp only [unmark_op, hlength, hmatch]
  | fatal => simp only [unmark_op, hlength, hmatch]
  | success a =>
      rw [marked, arg_update_eq_some.mpr hmatch] at h
      cases h

-- Where there are no marks, each value stands for itself.
theorem unmark_of_not_marked {ops : List (Op BlockArgument (OpKind K))}
    (h : ∀ op ∈ ops, marked ArgumentTypeStringToEnum op = false) {v : Value BlockArgument}
    (hv : v.DefinedIn ops) : unmark ArgumentTypeStringToEnum ops v = v := by
  induction ops with
  | nil =>
      cases v with
      | argument a => simp only [unmark, value]
      | result op index =>
          obtain ⟨_, hmem, _⟩ := hv
          exact absurd hmem List.not_mem_nil
  | cons op ops ih =>
      cases v with
      | argument a => simp only [unmark, value]
      | result id index =>
          by_cases hid : op.id = id
          · subst hid
            rw [unmark, value, if_pos rfl]
            exact unmark_op_of_not_marked (h op List.mem_cons_self) (List.length_map _) index
          · rw [unmark, value, if_neg hid]
            refine ih (fun o ho => h o (List.mem_cons_of_mem _ ho)) ?_
            obtain ⟨o, ho, hoid⟩ := hv
            have hne : o ≠ op := by
              rintro rfl
              exact hid hoid
            exact ⟨o, List.mem_of_ne_of_mem hne ho, hoid⟩

end Values

section Run

-- What a run has done once it has rewritten the marks `done`, in this order. `σ` is what each
-- value of the first module has become.
structure Uplifting (m₀ m : Module R K) (done : List (Op BlockArgument (OpKind K)))
    (σ : Value BlockArgument → Value BlockArgument) : Prop where
  ordered : Ordered m.ops
  nodup : (done.map Op.id).Nodup
  marks : ∀ op ∈ done, op ∈ m₀.ops ∧ marked ArgumentTypeStringToEnum op = true
  ops : m.ops = (m₀.ops.filter fun op => op.id ∉ done.map Op.id).map (mapOperands σ)
  defined : ∀ v : Value BlockArgument, v.DefinedIn m₀.ops → (σ v).DefinedIn m.ops
  meaning : ∀ (V : Type) [Inhabited V] (I : OpId → OpKind K → List V → Nat → V)
    (arg : BlockArgument → V), Passes ArgumentTypeStringToEnum I →
    ∀ v : Value BlockArgument, v.DefinedIn m₀.ops →
      value I arg m.ops (σ v) = value I arg m₀.ops v
  arg_attrs : ∀ func arg_index,
    m.arg_attrs func arg_index = uplifted ArgumentTypeStringToEnum m₀ done func arg_index

variable {ArgumentTypeStringToEnum} {m₀ m m' : Module R K}

theorem Uplifting.start (h : Ordered m₀.ops) :
    Uplifting ArgumentTypeStringToEnum m₀ m₀ [] id where
  ordered := h
  nodup := List.nodup_nil
  marks := fun _ hop => absurd hop List.not_mem_nil
  ops := by
    have hkept : m₀.ops.filter (fun op => op.id ∉ ([] : List (Op BlockArgument (OpKind K))).map
        Op.id) = m₀.ops :=
      List.filter_eq_self.mpr fun op _ => by simp
    have hid : mapOperands (K := K) id = id := funext fun op => by simp [mapOperands]
    rw [hkept, hid, List.map_id]
  defined := fun _ hv => hv
  meaning := fun _ _ _ _ _ _ _ => rfl
  arg_attrs := fun _ _ => rfl

theorem uplifted_append {order : List (Op BlockArgument (OpKind K))}
    {op : Op BlockArgument (OpKind K)} {a : ArgUpdate R}
    (ha : arg_update ArgumentTypeStringToEnum op = some a) (func : String) (arg_index : Nat) :
    uplifted ArgumentTypeStringToEnum m₀ (order ++ [op]) func arg_index =
      if .func func arg_index ∈ roots m₀.ops op then
        a.apply (uplifted ArgumentTypeStringToEnum m₀ order func arg_index)
      else uplifted ArgumentTypeStringToEnum m₀ order func arg_index := by
  rw [uplifted, List.filter_append, List.foldl_append]
  by_cases hreaches : .func func arg_index ∈ roots m₀.ops op
  · have hkept : [op].filter (reaches m₀.ops func arg_index) = [op] :=
      List.filter_cons_of_pos (decide_eq_true hreaches)
    rw [if_pos hreaches, hkept, List.foldl_cons, List.foldl_nil, annotate, ha]
    rfl
  · have hdropped : [op].filter (reaches m₀.ops func arg_index) = [] :=
      List.filter_cons_of_neg (by simpa [reaches] using hreaches)
    rw [if_neg hreaches, hdropped, List.foldl_nil]
    rfl

-- The operations left are those of the first module, with other operands.
theorem Uplifting.mem {done : List (Op BlockArgument (OpKind K))}
    {σ : Value BlockArgument → Value BlockArgument}
    (h : Uplifting ArgumentTypeStringToEnum m₀ m done σ) {op : Op BlockArgument (OpKind K)} :
    op ∈ m.ops ↔ ∃ op₀ ∈ m₀.ops, op₀.id ∉ done.map Op.id ∧ op = mapOperands σ op₀ := by
  rw [h.ops]
  simp only [List.mem_map, List.mem_filter, decide_eq_true_eq, and_assoc, eq_comm (b := op)]

theorem Uplifting.roots_eq {done : List (Op BlockArgument (OpKind K))}
    {σ : Value BlockArgument → Value BlockArgument} (h₀ : Ordered m₀.ops)
    (h : Uplifting ArgumentTypeStringToEnum m₀ m done σ)
    {op₀ : Op BlockArgument (OpKind K)} (hop₀ : op₀ ∈ m₀.ops) :
    roots m.ops (mapOperands σ op₀) = roots m₀.ops op₀ := by
  rw [roots, mapOperands, roots, List.flatMap_map]
  refine List.flatMap_congr fun v hv => ?_
  rw [getBlockArguments_eq_value, getBlockArguments_eq_value,
    h.meaning _ _ _ passes_flatten v (h₀.defined hop₀ hv)]

theorem Uplifting.step {done : List (Op BlockArgument (OpKind K))}
    {σ : Value BlockArgument → Value BlockArgument} (h₀ : Ordered m₀.ops)
    (h : Uplifting ArgumentTypeStringToEnum m₀ m done σ)
    {op₀ : Op BlockArgument (OpKind K)} (hop₀ : op₀ ∈ m₀.ops)
    (hnew : op₀.id ∉ done.map Op.id)
    (hrewrite : matchAndRewrite ArgumentTypeStringToEnum m (mapOperands σ op₀) = .success m') :
    ∃ σ', Uplifting ArgumentTypeStringToEnum m₀ m' (done ++ [op₀]) σ' := by
  obtain ⟨a, input, hinput, ha, -, rfl⟩ := matchAndRewrite_success.mp hrewrite
  rw [arg_update_mapOperands] at ha
  obtain ⟨x, hx⟩ : ∃ x, op₀.operands = [x] := by
    refine List.length_eq_one_iff.mp ?_
    rw [← List.length_map (f := σ)]
    exact congrArg List.length hinput
  obtain rfl : σ x = input := by
    simpa only [mapOperands, hx, List.map_singleton, List.cons.injEq, and_true] using hinput
  have hop : mapOperands σ op₀ ∈ m.ops := h.mem.mpr ⟨op₀, hop₀, hnew, rfl⟩
  have hroots : getBlockArguments m.ops (σ x) = roots m₀.ops op₀ := by
    rw [← h.roots_eq h₀ hop₀, roots, hinput, List.flatMap_singleton]
  refine ⟨subst op₀.id (σ x) ∘ σ, ?_, ?_, ?_, ?_, ?_, ?_, ?_⟩
  · exact ordered_replaceOp h.ordered hop hinput
  · rw [List.map_append, List.map_singleton, List.nodup_append]
    refine ⟨h.nodup, List.nodup_singleton _, fun id hid id' hid' heq => ?_⟩
    rw [List.mem_singleton] at hid'
    exact hnew (hid' ▸ heq ▸ hid)
  · intro op hmem
    obtain hmem | hmem := List.mem_append.mp hmem
    · exact h.marks op hmem
    · obtain rfl := List.mem_singleton.mp hmem
      exact ⟨hop₀, marked_iff.mpr ⟨a, x, hx, ha⟩⟩
  · show replaceOp m.ops op₀.id (σ x) = _
    have hfilter : (m₀.ops.filter (fun op => op.id ∉ done.map Op.id)).filter
        ((fun op => decide (op.id ≠ op₀.id)) ∘ mapOperands σ) =
        m₀.ops.filter (fun op => op.id ∉ (done ++ [op₀]).map Op.id) := by
      rw [List.filter_filter]
      refine List.filter_congr fun op _ => ?_
      have hleft : op.id ∉ (done ++ [op₀]).map Op.id ↔
          op.id ≠ op₀.id ∧ op.id ∉ done.map Op.id := by
        rw [List.map_append, List.mem_append, List.map_singleton, List.mem_singleton, not_or,
          and_comm]
      exact (Bool.decide_and _ _).symm.trans (decide_eq_decide.mpr hleft.symm)
    rw [replaceOp, h.ops, List.filter_map, hfilter, List.map_map]
    refine List.map_congr_left fun op _ => ?_
    simp only [Function.comp, mapOperands, Op.subst, List.map_map]
  · intro v hv
    exact defined_replaceOp h.ordered hop hinput (h.defined v hv)
  · intro V _ I arg hI v hv
    rw [← h.meaning V I arg hI v hv]
    refine value_replaceOp (fun y index => ?_) h.ordered hop hinput (h.defined v hv)
    refine hI _ _ a ?_ y index
    rw [arg_update_eq_some, hx] at ha
    exact ha
  · intro func arg_index
    rw [uplifted_append ha, ← h.arg_attrs, ← hroots]
    exact foldl_setArgAttr a _ _ func arg_index

theorem exists_uplifting (h₀ : Ordered m₀.ops)
    (hrun : ReflTransGen (Step ArgumentTypeStringToEnum) m₀ m) :
    ∃ done σ, Uplifting ArgumentTypeStringToEnum m₀ m done σ := by
  induction hrun with
  | refl => exact ⟨[], id, Uplifting.start h₀⟩
  | tail _ hstep ih =>
      obtain ⟨done, σ, h⟩ := ih
      obtain ⟨op, hop, hrewrite⟩ := hstep
      obtain ⟨op₀, hop₀, hnew, rfl⟩ := h.mem.mp hop
      obtain ⟨σ', h'⟩ := h.step h₀ hop₀ hnew hrewrite
      exact ⟨done ++ [op₀], σ', h'⟩

-- When the run is over, it has rewritten each mark once.
theorem Uplifting.perm {done : List (Op BlockArgument (OpKind K))}
    {σ : Value BlockArgument → Value BlockArgument} (h₀ : Ordered m₀.ops)
    (h : Uplifting ArgumentTypeStringToEnum m₀ m done σ)
    (hstop : Stopped ArgumentTypeStringToEnum m) :
    done.Perm (m₀.ops.filter (marked ArgumentTypeStringToEnum)) := by
  refine (List.perm_ext_iff_of_nodup h.nodup.of_map (h₀.nodup.filter _)).mpr fun op => ?_
  rw [List.mem_filter]
  constructor
  · exact h.marks op
  · rintro ⟨hop, hmarked⟩
    by_contra hdone
    have hid : op.id ∉ done.map Op.id := by
      intro hid
      obtain ⟨op', hop', heq⟩ := List.mem_map.mp hid
      exact hdone (h₀.eq_of_id (h.marks op' hop').1 hop heq ▸ hop')
    have hleft := not_marked_of_failure (hstop _ (h.mem.mpr ⟨op, hop, hid, rfl⟩))
    rw [marked, arg_update_mapOperands] at hleft
    rw [marked, hleft] at hmarked
    cases hmarked

variable {done : List (Op BlockArgument (OpKind K))}
  {σ : Value BlockArgument → Value BlockArgument}

-- In the end each value has become what it stands for without the marks.
theorem Uplifting.eq_unmark (h : Uplifting ArgumentTypeStringToEnum m₀ m done σ)
    (hstop : Stopped ArgumentTypeStringToEnum m) {v : Value BlockArgument}
    (hv : v.DefinedIn m₀.ops) : σ v = unmark ArgumentTypeStringToEnum m₀.ops v := by
  rw [unmark, ← h.meaning _ _ _ passes_unmark v hv]
  exact (unmark_of_not_marked (fun op hop => not_marked_of_failure (hstop op hop))
    (h.defined v hv)).symm

theorem matchAndRewrite_fatal {op : Op BlockArgument (OpKind K)} :
    matchAndRewrite ArgumentTypeStringToEnum m op = .fatal ↔
      match_op ArgumentTypeStringToEnum op.kind op.operands.length = .fatal ∨
        (marked ArgumentTypeStringToEnum op = true ∧
          (roots m.ops op).all BlockArgument.of_function = false) := by
  cases hmatch : match_op ArgumentTypeStringToEnum op.kind op.operands.length with
  | failure => simp [matchAndRewrite, hmatch, marked, arg_update]
  | fatal => simp [matchAndRewrite, hmatch]
  | success a =>
      obtain ⟨input, hinput⟩ := List.length_eq_one_iff.mp (match_op_success hmatch)
      have hmarked : marked ArgumentTypeStringToEnum op = true :=
        marked_iff.mpr ⟨a, input, hinput, arg_update_eq_some.mpr hmatch⟩
      rw [hinput] at hmatch
      simp only [matchAndRewrite, hinput, hmatch, hmarked, roots, List.flatMap_singleton,
        reduceCtorEq, true_and, false_or]
      cases (getBlockArguments m.ops input).all BlockArgument.of_function <;> simp

theorem Uplifting.fatal_iff (h₀ : Ordered m₀.ops)
    (h : Uplifting ArgumentTypeStringToEnum m₀ m done σ) {op₀ : Op BlockArgument (OpKind K)}
    (hop₀ : op₀ ∈ m₀.ops) :
    matchAndRewrite ArgumentTypeStringToEnum m (mapOperands σ op₀) = .fatal ↔
      matchAndRewrite ArgumentTypeStringToEnum m₀ op₀ = .fatal := by
  rw [matchAndRewrite_fatal, matchAndRewrite_fatal, h.roots_eq h₀ hop₀, marked, marked,
    arg_update_mapOperands, mapOperands, List.length_map]

-- Any mark that is left can be rewritten next.
theorem Uplifting.exists_step (h₀ : Ordered m₀.ops)
    (hsound : ∀ op ∈ m₀.ops, matchAndRewrite ArgumentTypeStringToEnum m₀ op ≠ .fatal)
    (h : Uplifting ArgumentTypeStringToEnum m₀ m done σ) {op₀ : Op BlockArgument (OpKind K)}
    (hop₀ : op₀ ∈ m₀.ops) (hmarked : marked ArgumentTypeStringToEnum op₀ = true)
    (hnew : op₀.id ∉ done.map Op.id) :
    ∃ m', Step ArgumentTypeStringToEnum m m' ∧
      ∃ σ', Uplifting ArgumentTypeStringToEnum m₀ m' (done ++ [op₀]) σ' := by
  cases hrewrite : matchAndRewrite ArgumentTypeStringToEnum m (mapOperands σ op₀) with
  | failure =>
      have hleft := not_marked_of_failure hrewrite
      rw [marked, arg_update_mapOperands, ← marked, hmarked] at hleft
      cases hleft
  | fatal => exact absurd ((h.fatal_iff h₀ hop₀).mp hrewrite) (hsound op₀ hop₀)
  | success m' =>
      exact ⟨m', ⟨_, h.mem.mpr ⟨op₀, hop₀, hnew, rfl⟩, hrewrite⟩,
        h.step h₀ hop₀ hnew hrewrite⟩

theorem Uplifting.exists_run (h₀ : Ordered m₀.ops)
    (hsound : ∀ op ∈ m₀.ops, matchAndRewrite ArgumentTypeStringToEnum m₀ op ≠ .fatal)
    (h : Uplifting ArgumentTypeStringToEnum m₀ m done σ)
    (rest : List (Op BlockArgument (OpKind K)))
    (hrest : ∀ op ∈ rest, op ∈ m₀.ops ∧ marked ArgumentTypeStringToEnum op = true)
    (hnodup : ((done ++ rest).map Op.id).Nodup) :
    ∃ m', ReflTransGen (Step ArgumentTypeStringToEnum) m m' ∧
      ∃ σ', Uplifting ArgumentTypeStringToEnum m₀ m' (done ++ rest) σ' := by
  induction rest generalizing m done σ with
  | nil => exact ⟨m, .refl, σ, (List.append_nil done).symm ▸ h⟩
  | cons op rest ih =>
      obtain ⟨hop, hmarked⟩ := hrest op List.mem_cons_self
      have hnew : op.id ∉ done.map Op.id := by
        intro hmem
        rw [List.map_append, List.nodup_append] at hnodup
        exact hnodup.2.2 _ hmem _ List.mem_cons_self rfl
      obtain ⟨m', hstep, σ', h'⟩ := h.exists_step h₀ hsound hop hmarked hnew
      obtain ⟨m'', hrun, h''⟩ := ih h' (fun o ho => hrest o (List.mem_cons_of_mem _ ho))
        (by rwa [List.append_assoc, List.singleton_append])
      rw [List.append_assoc, List.singleton_append] at h''
      exact ⟨m'', ReflTransGen.head hstep hrun, h''⟩

theorem Uplifting.stopped (h₀ : Ordered m₀.ops)
    (hsound : ∀ op ∈ m₀.ops, matchAndRewrite ArgumentTypeStringToEnum m₀ op ≠ .fatal)
    (h : Uplifting ArgumentTypeStringToEnum m₀ m done σ)
    (hdone : ∀ op ∈ m₀.ops, marked ArgumentTypeStringToEnum op = true → op ∈ done) :
    Stopped ArgumentTypeStringToEnum m := by
  intro op hop
  obtain ⟨op₀, hop₀, hnew, rfl⟩ := h.mem.mp hop
  refine failure_of_not_marked ?_ (fun hfatal => hsound op₀ hop₀ ((h.fatal_iff h₀ hop₀).mp hfatal))
  rw [marked, arg_update_mapOperands, ← marked, Bool.eq_false_iff]
  exact fun hmarked => hnew (List.mem_map_of_mem (hdone op₀ hop₀ hmarked))

def argument_mark : CustomCallOp where
  call_target_name := c_mark_argument_function_name
  num_results := 1
  frontend_attributes := some [(c_argument_type_attr_name, .string "parameter"),
    (c_name_attr_name, .string "w")]

def marked_module : Module Nat Unit where
  ops := [⟨1, .other (), [.result 0 0]⟩,
    ⟨0, .custom_call argument_mark, [.argument (.func "main" 0)]⟩]
  arg_attrs := fun _ _ => ⟨none, none, none⟩

def parameter_only (s : String) : Option Nat := if s = "parameter" then some 1 else none

theorem marked_module_ordered : Ordered marked_module.ops := by
  refine ⟨?_, ?_, ?_, ?_, trivial⟩ <;> simp [Value.DefinedIn]

end Run

end TTXla.PJRT.MarkCustomCalls

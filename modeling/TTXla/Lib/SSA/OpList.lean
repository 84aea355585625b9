import Mathlib.Data.List.Basic

-- Operations in a list, the later ones first, and the replacement of one by its operand.
namespace TTXla.OpList

abbrev OpId := Nat

inductive Value (A : Type) where
  | argument (a : A)
  | result (op : OpId) (index : Nat)

structure Op (A K : Type) where
  id : OpId
  kind : K
  operands : List (Value A)

variable {A K V : Type}

section Order

def Value.DefinedIn (ops : List (Op A K)) : Value A → Prop
  | .argument _ => True
  | .result op _ => ∃ o ∈ ops, o.id = op

-- The operands of an operation are defined before it, and no other has its name.
def Ordered : List (Op A K) → Prop
  | [] => True
  | o :: ops => (∀ v ∈ o.operands, v.DefinedIn ops) ∧ (∀ o' ∈ ops, o'.id ≠ o.id) ∧ Ordered ops

theorem Value.DefinedIn.cons {ops : List (Op A K)} {v : Value A} (h : v.DefinedIn ops)
    (o : Op A K) : v.DefinedIn (o :: ops) := by
  cases v with
  | argument a => trivial
  | result op index =>
      obtain ⟨o', ho', hid⟩ := h
      exact ⟨o', List.mem_cons_of_mem _ ho', hid⟩

theorem Ordered.defined {ops : List (Op A K)} (h : Ordered ops) {o : Op A K} (ho : o ∈ ops)
    {v : Value A} (hv : v ∈ o.operands) : v.DefinedIn ops := by
  induction ops with
  | nil => exact absurd ho List.not_mem_nil
  | cons o' ops ih =>
      obtain ⟨hdefined, _, hrest⟩ := h
      obtain rfl | ho := List.mem_cons.mp ho
      · exact (hdefined v hv).cons o
      · exact (ih hrest ho).cons o'

theorem Ordered.eq_of_id {ops : List (Op A K)} (h : Ordered ops) {o o' : Op A K} (ho : o ∈ ops)
    (ho' : o' ∈ ops) (hid : o.id = o'.id) : o = o' := by
  induction ops with
  | nil => exact absurd ho List.not_mem_nil
  | cons first ops ih =>
      obtain ⟨_, hnew, hrest⟩ := h
      obtain heq | hmem := List.mem_cons.mp ho
      · obtain heq' | hmem' := List.mem_cons.mp ho'
        · rw [heq, heq']
        · exact absurd (hid.symm.trans (congrArg Op.id heq)) (hnew o' hmem')
      · obtain heq' | hmem' := List.mem_cons.mp ho'
        · exact absurd (hid.trans (congrArg Op.id heq')) (hnew o hmem)
        · exact ih hrest hmem hmem'

theorem Ordered.nodup {ops : List (Op A K)} (h : Ordered ops) : ops.Nodup := by
  induction ops with
  | nil => exact List.nodup_nil
  | cons o ops ih =>
      obtain ⟨_, hnew, hrest⟩ := h
      exact List.nodup_cons.mpr ⟨fun ho => hnew o ho rfl, ih hrest⟩

end Order

section Evaluation

variable [Inhabited V]

-- What a value is, when the operations compute their results from their operands.
def value (I : OpId → K → List V → Nat → V) (arg : A → V) : List (Op A K) → Value A → V
  | _, .argument a => arg a
  | [], .result _ _ => default
  | o :: ops, .result op index =>
      if o.id = op then I op o.kind (o.operands.map (value I arg ops)) index
      else value I arg ops (.result op index)

variable {I : OpId → K → List V → Nat → V} {arg : A → V}

theorem value_cons_of_defined {ops : List (Op A K)} {o : Op A K} (hnew : ∀ o' ∈ ops, o'.id ≠ o.id)
    {v : Value A} (hv : v.DefinedIn ops) : value I arg (o :: ops) v = value I arg ops v := by
  cases v with
  | argument a => simp only [value]
  | result op index =>
      obtain ⟨o', ho', rfl⟩ := hv
      rw [value, if_neg (hnew o' ho').symm]

end Evaluation

section Replacement

-- The operation has one result.
def subst (op : OpId) (input : Value A) : Value A → Value A
  | .argument a => .argument a
  | .result op' index => if op' = op then input else .result op' index

def Op.subst (op : OpId) (input : Value A) (o : Op A K) : Op A K :=
  { o with operands := o.operands.map (OpList.subst op input) }

def replaceOp (ops : List (Op A K)) (op : OpId) (input : Value A) : List (Op A K) :=
  (ops.filter fun o => o.id ≠ op).map (Op.subst op input)

variable {ops : List (Op A K)} {op : OpId} {input : Value A}

theorem mem_replaceOp {o' : Op A K} :
    o' ∈ replaceOp ops op input ↔ ∃ o ∈ ops, o.id ≠ op ∧ o' = o.subst op input := by
  simp only [replaceOp, List.mem_map, List.mem_filter, decide_eq_true_eq, ne_eq, and_assoc,
    eq_comm (b := o')]

theorem subst_of_defined (hnone : ∀ o ∈ ops, o.id ≠ op) {v : Value A} (hv : v.DefinedIn ops) :
    subst op input v = v := by
  cases v with
  | argument a => rfl
  | result op' index =>
      obtain ⟨o, ho, rfl⟩ := hv
      exact if_neg (hnone o ho)

theorem replaceOp_of_none (h : Ordered ops) (hnone : ∀ o ∈ ops, o.id ≠ op) :
    replaceOp ops op input = ops := by
  have hfilter : ops.filter (fun o => o.id ≠ op) = ops :=
    List.filter_eq_self.mpr fun o ho => decide_eq_true (hnone o ho)
  have hsubst : ∀ o ∈ ops, o.subst op input = o := by
    intro o ho
    have hoperands : o.operands.map (subst op input) = o.operands := by
      rw [List.map_congr_left fun v hv => subst_of_defined hnone (h.defined ho hv), List.map_id']
    rw [Op.subst, hoperands]
  rw [replaceOp, hfilter, List.map_congr_left hsubst, List.map_id']

theorem replaceOp_cons_self {o : Op A K} (h : Ordered (o :: ops)) :
    replaceOp (o :: ops) o.id input = ops := by
  have hdrop : replaceOp (o :: ops) o.id input = replaceOp ops o.id input := by
    rw [replaceOp, List.filter_cons_of_neg (by simp)]
    rfl
  rw [hdrop, replaceOp_of_none h.2.2 h.2.1]

theorem replaceOp_cons {o : Op A K} (hne : o.id ≠ op) :
    replaceOp (o :: ops) op input = o.subst op input :: replaceOp ops op input := by
  rw [replaceOp, replaceOp, List.filter_cons_of_pos (by simpa using hne)]
  rfl

variable {o : Op A K}

theorem Ordered.operand_ne (h : Ordered ops) (ho : o ∈ ops) {index : Nat} :
    .result o.id index ∉ o.operands := by
  induction ops with
  | nil => exact absurd ho List.not_mem_nil
  | cons first ops ih =>
      obtain ⟨hdefined, hnew, hrest⟩ := h
      obtain heq | hmem := List.mem_cons.mp ho
      · intro hself
        rw [heq] at hself
        obtain ⟨o', ho', hid⟩ := hdefined _ hself
        exact hnew o' ho' hid
      · exact ih hrest hmem

theorem defined_replaceOp (h : Ordered ops) (ho : o ∈ ops) (hoperands : o.operands = [input])
    {v : Value A} (hv : v.DefinedIn ops) :
    (subst o.id input v).DefinedIn (replaceOp ops o.id input) := by
  have hkept : ∀ o' ∈ ops, o'.id ≠ o.id → ∀ index,
      (Value.result o'.id index).DefinedIn (replaceOp ops o.id input) :=
    fun o' ho' hne index => ⟨_, mem_replaceOp.mpr ⟨o', ho', hne, rfl⟩, rfl⟩
  cases v with
  | argument a => trivial
  | result op index =>
      obtain ⟨o', ho', rfl⟩ := hv
      by_cases hid : o'.id = o.id
      · have hinput : input ∈ o.operands := hoperands ▸ List.mem_cons_self
        rw [subst, if_pos hid]
        have hearlier := h.defined ho hinput
        have hne : ∀ index, input ≠ .result o.id index := by
          rintro index rfl
          exact h.operand_ne ho hinput
        clear hoperands hinput
        cases input with
        | argument a => trivial
        | result op index =>
            obtain ⟨o'', ho'', rfl⟩ := hearlier
            exact hkept o'' ho'' (fun heq => hne index (heq ▸ rfl)) index
      · rw [subst, if_neg hid]
        exact hkept o' ho' hid index

theorem ordered_replaceOp (h : Ordered ops) (ho : o ∈ ops) (hoperands : o.operands = [input]) :
    Ordered (replaceOp ops o.id input) := by
  induction ops with
  | nil => exact absurd ho List.not_mem_nil
  | cons first ops ih =>
      by_cases hfirst : first.id = o.id
      · obtain rfl := h.eq_of_id List.mem_cons_self ho hfirst
        rw [replaceOp_cons_self h]
        exact h.2.2
      · obtain ⟨hdefined, hnew, hrest⟩ := h
        have ho' : o ∈ ops := List.mem_of_ne_of_mem (fun heq => hfirst (heq ▸ rfl)) ho
        rw [replaceOp_cons hfirst]
        refine ⟨fun v hv => ?_, fun o' ho'' => ?_, ih hrest ho'⟩
        · obtain ⟨u, hu, rfl⟩ := List.mem_map.mp hv
          exact defined_replaceOp hrest ho' hoperands (hdefined u hu)
        · obtain ⟨o'', ho''', _, rfl⟩ := mem_replaceOp.mp ho''
          exact hnew o'' ho'''

variable [Inhabited V] {I : OpId → K → List V → Nat → V} {arg : A → V}

-- An operation that hands its operand on can be replaced by it.
theorem value_replaceOp (hI : ∀ x index, I o.id o.kind [x] index = x) (h : Ordered ops)
    (ho : o ∈ ops) (hoperands : o.operands = [input]) {v : Value A} (hv : v.DefinedIn ops) :
    value I arg (replaceOp ops o.id input) (subst o.id input v) = value I arg ops v := by
  induction ops generalizing v with
  | nil => exact absurd ho List.not_mem_nil
  | cons first ops ih =>
      by_cases hfirst : first.id = o.id
      · obtain rfl := h.eq_of_id List.mem_cons_self ho hfirst
        rw [replaceOp_cons_self h]
        cases v with
        | argument a => simp only [subst, value]
        | result op index =>
            by_cases hop : op = first.id
            · rw [subst, if_pos hop, value, if_pos hop.symm, hop, hoperands, List.map_singleton, hI]
            · rw [subst, if_neg hop, value, if_neg (Ne.symm hop)]
      · obtain ⟨hdefined, hnew, hrest⟩ := h
        have ho' : o ∈ ops := List.mem_of_ne_of_mem (fun heq => hfirst (heq ▸ rfl)) ho
        have hnew' : ∀ o' ∈ replaceOp ops o.id input, o'.id ≠ (first.subst o.id input).id := by
          intro o' ho''
          obtain ⟨o'', ho''', _, rfl⟩ := mem_replaceOp.mp ho''
          exact hnew o'' ho'''
        rw [replaceOp_cons hfirst]
        by_cases hlast : ∃ index, v = .result first.id index
        · obtain ⟨index, rfl⟩ := hlast
          have hoperands' : (first.subst o.id input).operands.map
              (value I arg (replaceOp ops o.id input)) = first.operands.map (value I arg ops) := by
            rw [Op.subst, List.map_map]
            exact List.map_congr_left fun u hu => ih hrest ho' (hdefined u hu)
          have hid : (first.subst o.id input).id = first.id := rfl
          rw [subst, if_neg hfirst, value, value, if_pos rfl, if_pos hid, hoperands']
          rfl
        · have hv' : v.DefinedIn ops := by
            cases v with
            | argument a => trivial
            | result op index =>
                obtain ⟨o', ho'', rfl⟩ := hv
                obtain heq | hmem := List.mem_cons.mp ho''
                · exact absurd ⟨index, by rw [heq]⟩ hlast
                · exact ⟨o', hmem, rfl⟩
          rw [value_cons_of_defined hnew hv', value_cons_of_defined hnew'
            (defined_replaceOp hrest ho' hoperands hv')]
          exact ih hrest ho' hv'

end Replacement

end TTXla.OpList

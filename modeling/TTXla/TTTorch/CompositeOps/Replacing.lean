import TTXla.TTTorch.CompositeOps.Rewriting

-- One node of a graph and its replacement.
namespace TTXla.TTTorch.CompositeOps

open TTXla.Dataflow

variable {F M T : Type}

section Calls

variable {torch : Torch F M T} {params params' : List (Param T)} {args values : List (Value T)}
  {kwargs : List (String × Value T)} {v : Value T}

-- A parameter that may also be given by its position.
def Param.Widens (p p' : Param T) : Prop :=
  p.name = p'.name ∧ p.default = p'.default ∧ (p.kw_only = false → p'.kw_only = false)

theorem bind_widens (hparams : List.Forall₂ Param.Widens params params')
    (h : bind params args kwargs = some values) : bind params' args kwargs = some values := by
  induction hparams generalizing args values with
  | nil => exact h
  | @cons p p' params params' hp _ ih =>
      obtain ⟨hname, hdefault, hkw⟩ := hp
      cases args with
      | nil =>
          obtain ⟨v, hv, h⟩ := Option.bind_eq_some_iff.mp h
          obtain ⟨rest, hrest, h⟩ := Option.bind_eq_some_iff.mp h
          rw [bind, ← hname, ← hdefault, hv, Option.bind_eq_bind, Option.bind_some, ih hrest]
          exact h
      | cons v args =>
          rw [bind] at h
          split_ifs at h with hcond
          obtain ⟨rest, hrest, h⟩ := Option.bind_eq_some_iff.mp h
          simp only [Bool.or_eq_true, not_or, Bool.not_eq_true] at hcond
          rw [bind, ← hname, hkw hcond.1, hcond.2, ih hrest]
          exact h

theorem bind_call_widens (hparams : List.Forall₂ Param.Widens params params')
    (h : bind_call params args kwargs = some values) :
    bind_call params' args kwargs = some values := by
  have hnames : params.map Param.name = params'.map Param.name := by
    clear h
    induction hparams with
    | nil => rfl
    | cons hp _ ih => rw [List.map_cons, List.map_cons, hp.1, ih]
  unfold bind_call at h ⊢
  split_ifs at h with hknown
  rw [if_pos (hnames ▸ hknown)]
  exact bind_widens hparams h

theorem gelu_params_widens :
    List.Forall₂ Param.Widens (gelu_params (T := T)) composite_gelu_params :=
  .cons ⟨rfl, rfl, fun _ => rfl⟩ (.cons ⟨rfl, rfl, fun _ => rfl⟩ .nil)

theorem sequence_eq_some : sequence v = some values ↔ v = .tuple values := by
  cases v <;> simp [sequence]

-- A call of a function with one composite gives what a call of the composite gives.
theorem call_replacement {f f' : Function F} (hf : replacements f = some (.function f'))
    (h : call_function torch f args kwargs = some v) :
    call_function torch f' args kwargs = some v := by
  cases f with
  | gelu =>
      cases hf
      unfold call_function at h ⊢
      obtain ⟨values, hbind, h⟩ := Option.bind_eq_some_iff.mp h
      rw [bind_call_widens gelu_params_widens hbind, Option.bind_eq_bind, Option.bind_some]
      split at h
      · simpa [composite_gelu] using h
      · cases h
  | rms_norm | functional_rms_norm =>
      cases hf
      unfold call_function at h ⊢
      obtain ⟨values, hbind, h⟩ := Option.bind_eq_some_iff.mp h
      rw [hbind, Option.bind_eq_bind, Option.bind_some]
      split at h
      · simpa [composite_rms_norm] using h
      · cases h
  | layer_norm =>
      cases hf
      unfold call_function at h ⊢
      obtain ⟨values, hbind, h⟩ := Option.bind_eq_some_iff.mp h
      rw [hbind, Option.bind_eq_bind, Option.bind_some]
      split at h
      · obtain ⟨shape, hshape, h⟩ := Option.bind_eq_some_iff.mp h
        obtain rfl := sequence_eq_some.mp hshape
        simpa [composite_layer_norm, sequence] using h
      · cases h
  | _ => cases hf

theorem run_topk_out {input k dim largest sorted out : Value T} {r : Value T × Value T}
    (h : run_topk torch input k dim largest sorted out = some r) :
    run_topk torch input k dim largest sorted .none = some r := by
  unfold run_topk at h ⊢
  split_ifs at h
  exact h

-- A call of `topk` gives two tensors, and the composites give both or one of them.
theorem call_topk (h : call_function torch .topk args kwargs = some v) :
    ∃ values indices, v = .tuple [values, indices] ∧
      call_function torch .composite_topk args kwargs = some v ∧
      call_function torch .composite_topk_values args kwargs = some values ∧
      call_function torch .composite_topk_indices args kwargs = some indices := by
  unfold call_function at h ⊢
  obtain ⟨bound, hbind, h⟩ := Option.bind_eq_some_iff.mp h
  split at h
  · obtain ⟨⟨values, indices⟩, htopk, h⟩ := Option.bind_eq_some_iff.mp h
    obtain rfl := Option.some.inj h
    refine ⟨values, indices, rfl, ?_, ?_, ?_⟩
    · simp [hbind, composite_topk, htopk]
    · simp [hbind, composite_topk_values, run_topk_out htopk]
    · simp [hbind, composite_topk_indices, run_topk_out htopk]
  · cases h

end Calls

section Targets

-- The functions and methods that the pass looks up.
def Node.Calls (n : Node F T) (f : Function F) : Prop :=
  (∃ args kwargs, n.op = .call_function f args kwargs) ∨
    ∃ target args kwargs, n.op = .call_method target args kwargs ∧
      method_name_to_function target = some f

def Node.values (env : Nat → Option (Value T)) (n : Node F T) :
    Option (List (Value T) × List (String × Value T)) :=
  match n.op with
  | .call_function _ args kwargs | .call_method _ args kwargs => do
      let values ← Arg.eval_all env args
      let kwvalues ← Arg.eval_kwargs env kwargs
      return (values, kwvalues)
  | _ => none

theorem run_node_of_calls (torch : Torch F M T) (gm : GraphModule M T)
    (inputs : String → Option (Value T)) {node : Node F T} {f : Function F} (h : node.Calls f)
    (env : Nat → Option (Value T)) : run_node torch gm inputs node env =
      (node.values env).bind fun x => call_function torch f x.1 x.2 := by
  obtain ⟨args, kwargs, hop⟩ | ⟨target, args, kwargs, hop, hmethod⟩ := h
  · simp [run_node, Node.values, hop, Option.bind_assoc]
  · simp [run_node, Node.values, hop, Option.bind_assoc, call_method, hmethod]

theorem run_node_set_target (torch : Torch F M T) (gm : GraphModule M T)
    (inputs : String → Option (Value T)) {node : Node F T} {f : Function F} (h : node.Calls f)
    (target : Function F) (env : Nat → Option (Value T)) :
    run_node torch gm inputs { node with op := node.op.set_target target } env =
      (node.values env).bind fun x => call_function torch target x.1 x.2 := by
  obtain ⟨args, kwargs, hop⟩ | ⟨_, args, kwargs, hop, _⟩ := h
  · simp [run_node, Node.values, hop, Op.set_target, Option.bind_assoc]
  · simp [run_node, Node.values, hop, Op.set_target, Option.bind_assoc]

variable {torch : Torch F M T} {gm : GraphModule M T} {g : Graph F T} {n : Nat}

@[simp] theorem uses_set_target (op : Op F T) (target : Function F) :
    (op.set_target target).uses = op.uses := by
  cases op <;> rfl

def retarget (n : Nat) (target : Function F) (m : Node F T) : Node F T :=
  if m.name = n then { m with op := m.op.set_target target } else m

@[simp] theorem retarget_name (target : Function F) (m : Node F T) :
    (retarget n target m).name = m.name := by
  unfold retarget
  split <;> rfl

@[simp] theorem retarget_uses (target : Function F) (m : Node F T) :
    (retarget n target m).op.uses = m.op.uses := by
  unfold retarget
  split
  · exact uses_set_target ..
  · rfl

@[simp] theorem retarget_is_output (target : Function F) (m : Node F T) :
    (retarget n target m).is_output = m.is_output := by
  unfold retarget
  split
  · cases hop : m.op <;> simp [Node.is_output, Op.set_target, hop]
  · rfl

theorem retarget_ne {target : Function F} {m : Node F T} (h : m.name ≠ n) :
    retarget n target m = m := if_neg h

theorem set_target_eq (g : Graph F T) (n : Nat) (target : Function F) :
    set_target g n target = g.map (retarget n target) := rfl

-- A node that gets a target which gives the same.
theorem set_target_follows (hsorted : SortedFrom [] g) {target : Function F}
    (hvalue : ∀ inputs env, Runs torch gm inputs g env → ∀ m ∈ g, m.name = n →
      run_node torch gm inputs (retarget n target m) env = env n) :
    Follows torch gm g (set_target g n target) := by
  have heq : set_target g n target = g.flatMap fun m => [retarget n target m] := by
    rw [set_target_eq, List.map_eq_flatMap]
  rw [heq]
  refine follows_of_blocks id hsorted (fun m _ => ?_) ?_ (fun m _ => ?_)
    fun inputs env hruns => ⟨env, fun m hm => ⟨fun k hk => ?_, fun k hk => ?_⟩, fun _ _ _ => rfl⟩
  · exact Block.singleton (fun a ha => ⟨a, by simpa using ha, rfl⟩) (by simp)
  · rw [← heq, set_target_eq, List.map_map]
    have hnames : Node.name ∘ retarget n target = Node.name (F := F) (T := T) := by
      funext m
      simp
    rw [hnames]
    exact hsorted.nodup
  · exact Or.inr ⟨_, rfl, retarget_is_output target m, retarget_name target m⟩
  · obtain rfl := List.mem_singleton.mp hk
    rw [label_eq, retarget_name]
    by_cases hname : m.name = n
    · rw [hvalue inputs env hruns m hm hname, hname]
    · rw [retarget_ne hname]
      exact hruns.solves m hm
  · obtain rfl := List.mem_singleton.mp hk
    rw [retarget_name]
    exact hruns.isSome m hm

end Targets

end TTXla.TTTorch.CompositeOps

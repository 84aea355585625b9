import TTXla.Lib.Options
import TTXla.TTTorch.CompositeOps

-- What a renaming does to the arguments, and the graphs that run as another one does.
namespace TTXla.TTTorch.CompositeOps

open TTXla.Dataflow

variable {F M T : Type} {σ τ : Nat → Nat} {env env' : Nat → Option (Value T)}

section Arguments

mutual

theorem Arg.uses_replace (arg : Arg T) : (arg.replace σ).uses = arg.uses.map σ := by
  cases arg with
  | node name => rfl
  | value v => rfl
  | tuple args => exact Arg.all_uses_replace args

theorem Arg.all_uses_replace (args : List (Arg T)) :
    Arg.all_uses (Arg.replace_all σ args) = (Arg.all_uses args).map σ := by
  cases args with
  | nil => rfl
  | cons a args =>
      rw [Arg.replace_all, Arg.all_uses, Arg.all_uses, List.map_append, Arg.uses_replace a,
        Arg.all_uses_replace args]

end

mutual

theorem Arg.replace_replace (arg : Arg T) : (arg.replace σ).replace τ = arg.replace (τ ∘ σ) := by
  cases arg with
  | node name => rfl
  | value v => rfl
  | tuple args => exact congrArg Arg.tuple (Arg.replace_all_replace_all args)

theorem Arg.replace_all_replace_all (args : List (Arg T)) :
    Arg.replace_all τ (Arg.replace_all σ args) = Arg.replace_all (τ ∘ σ) args := by
  cases args with
  | nil => rfl
  | cons a args =>
      simp only [Arg.replace_all, Arg.replace_replace a, Arg.replace_all_replace_all args]

end

mutual

theorem Arg.replace_congr (arg : Arg T) (h : ∀ a ∈ arg.uses, σ a = τ a) :
    arg.replace σ = arg.replace τ := by
  cases arg with
  | node name => exact congrArg Arg.node (h name List.mem_cons_self)
  | value v => rfl
  | tuple args => exact congrArg Arg.tuple (Arg.replace_all_congr args h)

theorem Arg.replace_all_congr (args : List (Arg T)) (h : ∀ a ∈ Arg.all_uses args, σ a = τ a) :
    Arg.replace_all σ args = Arg.replace_all τ args := by
  cases args with
  | nil => rfl
  | cons a args =>
      simp only [Arg.all_uses, List.mem_append] at h
      simp only [Arg.replace_all, Arg.replace_congr a fun x hx => h x (Or.inl hx),
        Arg.replace_all_congr args fun x hx => h x (Or.inr hx)]

end

mutual

theorem Arg.replace_id (arg : Arg T) : arg.replace id = arg := by
  cases arg with
  | node name => rfl
  | value v => rfl
  | tuple args => exact congrArg Arg.tuple (Arg.replace_all_id args)

theorem Arg.replace_all_id (args : List (Arg T)) : Arg.replace_all id args = args := by
  cases args with
  | nil => rfl
  | cons a args => simp only [Arg.replace_all, Arg.replace_id a, Arg.replace_all_id args]

end

mutual

theorem Arg.eval_congr (arg : Arg T) (h : ∀ a ∈ arg.uses, env a = env' a) :
    arg.eval env = arg.eval env' := by
  cases arg with
  | node name => exact h name List.mem_cons_self
  | value v => rfl
  | tuple args => exact congrArg (Option.map Value.tuple) (Arg.eval_all_congr args h)

theorem Arg.eval_all_congr (args : List (Arg T))
    (h : ∀ a ∈ Arg.all_uses args, env a = env' a) :
    Arg.eval_all env args = Arg.eval_all env' args := by
  cases args with
  | nil => rfl
  | cons a args =>
      simp only [Arg.all_uses, List.mem_append] at h
      simp only [Arg.eval_all, Arg.eval_congr a fun x hx => h x (Or.inl hx),
        Arg.eval_all_congr args fun x hx => h x (Or.inr hx)]

end

mutual

theorem Arg.eval_replace (arg : Arg T) : (arg.replace σ).eval env = arg.eval (env ∘ σ) := by
  cases arg with
  | node name => rfl
  | value v => rfl
  | tuple args => exact congrArg (Option.map Value.tuple) (Arg.eval_all_replace_all args)

theorem Arg.eval_all_replace_all (args : List (Arg T)) :
    Arg.eval_all env (Arg.replace_all σ args) = Arg.eval_all (env ∘ σ) args := by
  cases args with
  | nil => rfl
  | cons a args =>
      simp only [Arg.replace_all, Arg.eval_all, Arg.eval_replace a, Arg.eval_all_replace_all args]

end

theorem Arg.replace_kwargs_fst (kwargs : List (String × Arg T)) :
    (Arg.replace_kwargs σ kwargs).map Prod.fst = kwargs.map Prod.fst := by
  simp [Arg.replace_kwargs, Function.comp_def]

theorem Arg.replace_kwargs_snd (kwargs : List (String × Arg T)) :
    (Arg.replace_kwargs σ kwargs).map Prod.snd = Arg.replace_all σ (kwargs.map Prod.snd) := by
  induction kwargs with
  | nil => rfl
  | cons x kwargs ih =>
      simp only [Arg.replace_kwargs, List.map_cons, Arg.replace_all] at ih ⊢
      rw [ih]

theorem Arg.eval_kwargs_congr {kwargs : List (String × Arg T)}
    (h : ∀ a ∈ Arg.all_uses (kwargs.map Prod.snd), env a = env' a) :
    Arg.eval_kwargs env kwargs = Arg.eval_kwargs env' kwargs := by
  rw [Arg.eval_kwargs, Arg.eval_kwargs, Arg.eval_all_congr _ h]

theorem Arg.eval_kwargs_replace (kwargs : List (String × Arg T)) :
    Arg.eval_kwargs env (Arg.replace_kwargs σ kwargs) = Arg.eval_kwargs (env ∘ σ) kwargs := by
  rw [Arg.eval_kwargs, Arg.eval_kwargs, Arg.replace_kwargs_fst, Arg.replace_kwargs_snd,
    Arg.eval_all_replace_all]

theorem Op.uses_replace (op : Op F T) : (op.replace σ).uses = op.uses.map σ := by
  cases op with
  | placeholder target => rfl
  | get_attr target => rfl
  | output arg => exact Arg.uses_replace arg
  | _ =>
      simp only [Op.replace, Op.uses, Arg.all_uses_replace, Arg.replace_kwargs_snd,
        List.map_append]

theorem Arg.replace_kwargs_congr {kwargs : List (String × Arg T)}
    (h : ∀ a ∈ Arg.all_uses (kwargs.map Prod.snd), σ a = τ a) :
    Arg.replace_kwargs σ kwargs = Arg.replace_kwargs τ kwargs := by
  induction kwargs with
  | nil => rfl
  | cons x kwargs ih =>
      simp only [List.map_cons, Arg.all_uses, List.mem_append] at h
      simp only [Arg.replace_kwargs, List.map_cons] at ih ⊢
      rw [ih fun a ha => h a (Or.inr ha), Arg.replace_congr x.2 fun a ha => h a (Or.inl ha)]

theorem Op.replace_congr {op : Op F T} (h : ∀ a ∈ op.uses, σ a = τ a) :
    op.replace σ = op.replace τ := by
  cases op with
  | placeholder target => rfl
  | get_attr target => rfl
  | output arg => exact congrArg Op.output (Arg.replace_congr arg h)
  | _ =>
      simp only [Op.uses, List.mem_append] at h
      simp only [Op.replace, Arg.replace_all_congr _ fun a ha => h a (Or.inl ha),
        Arg.replace_kwargs_congr fun a ha => h a (Or.inr ha)]

theorem Op.replace_replace (op : Op F T) : (op.replace σ).replace τ = op.replace (τ ∘ σ) := by
  cases op with
  | placeholder target => rfl
  | get_attr target => rfl
  | output arg => exact congrArg Op.output (Arg.replace_replace arg)
  | _ =>
      simp only [Op.replace, Arg.replace_all_replace_all, Arg.replace_kwargs, List.map_map,
        Function.comp_def, Arg.replace_replace]

theorem Op.replace_id (op : Op F T) : op.replace id = op := by
  cases op with
  | placeholder target => rfl
  | get_attr target => rfl
  | output arg => exact congrArg Op.output (Arg.replace_id arg)
  | _ => simp [Op.replace, Arg.replace_all_id, Arg.replace_kwargs, Arg.replace_id]

end Arguments

section Nodes

variable {n m : Node F T}

@[simp] theorem label_eq (n : Node F T) : DataNode.label n = n.name := rfl

@[simp] theorem args_eq (n : Node F T) : DataNode.args n = n.op.uses := rfl

@[simp] theorem replace_name (σ : Nat → Nat) (n : Node F T) : (n.replace σ).name = n.name := rfl

@[simp] theorem uses_replace (σ : Nat → Nat) (n : Node F T) :
    (n.replace σ).op.uses = n.op.uses.map σ := Op.uses_replace n.op

theorem replace_congr (h : ∀ a ∈ n.op.uses, σ a = τ a) : n.replace σ = n.replace τ := by
  rw [Node.replace, Node.replace, Op.replace_congr h]

@[simp] theorem replace_replace (n : Node F T) :
    (n.replace σ).replace τ = n.replace (τ ∘ σ) := by
  simp only [Node.replace, Op.replace_replace]

theorem replace_eq_self (h : ∀ a ∈ n.op.uses, σ a = a) : n.replace σ = n := by
  have hid : n.replace σ = n.replace id := replace_congr h
  rw [hid, Node.replace, Op.replace_id]

@[simp] theorem is_output_replace (σ : Nat → Nat) (n : Node F T) :
    (n.replace σ).is_output = n.is_output := by
  cases hop : n.op <;> simp [Node.replace, Op.replace, Node.is_output, hop]

@[simp] theorem is_getitem_replace (σ : Nat → Nat) (n : Node F T) :
    (n.replace σ).is_getitem = n.is_getitem := by
  cases hop : n.op with
  | call_function target args kwargs =>
      cases target <;> simp [Node.replace, Op.replace, Node.is_getitem, hop]
  | _ => simp [Node.replace, Op.replace, Node.is_getitem, hop]

variable (torch : Torch F M T) (gm : GraphModule M T) (inputs : String → Option (Value T))

theorem run_node_local : Local (run_node torch gm inputs) := by
  intro n env env' hargs
  simp only [args_eq] at hargs
  cases hop : n.op with
  | placeholder target => simp only [run_node, hop]
  | get_attr target => simp only [run_node, hop]
  | output arg =>
      rw [hop] at hargs
      simp only [run_node, hop]
      exact Arg.eval_congr arg hargs
  | _ =>
      simp only [hop, Op.uses, List.mem_append] at hargs
      simp only [run_node, hop, Arg.eval_all_congr _ fun a ha => hargs a (Or.inl ha),
        Arg.eval_kwargs_congr fun a ha => hargs a (Or.inr ha)]

theorem run_node_replace (σ : Nat → Nat) (n : Node F T) (env : Nat → Option (Value T)) :
    run_node torch gm inputs (n.replace σ) env = run_node torch gm inputs n (env ∘ σ) := by
  cases hop : n.op with
  | output arg =>
      simp only [run_node, Node.replace, Op.replace, hop]
      exact Arg.eval_replace arg
  | _ =>
      simp only [run_node, Node.replace, Op.replace, hop, Arg.eval_all_replace_all,
        Arg.eval_kwargs_replace]

end Nodes

section Runs

variable {torch : Torch F M T} {gm : GraphModule M T} {inputs : String → Option (Value T)}
  {g g' g'' : Graph F T}

-- Values of all nodes.
structure Runs (torch : Torch F M T) (gm : GraphModule M T) (inputs : String → Option (Value T))
    (g : Graph F T) (env : Nat → Option (Value T)) : Prop where
  solves : Solves (run_node torch gm inputs) g env
  isSome : ∀ n ∈ g, (env n.name).isSome

def output_name (g : Graph F T) : Option Nat := (g.find? Node.is_output).map Node.name

theorem run_eq_some_iff (hsorted : SortedFrom [] g) {v : Value T} :
    run torch gm inputs g = some v ↔
      ∃ env, Runs torch gm inputs g env ∧ ∃ n, output_name g = some n ∧ env n = some v := by
  constructor
  · intro h
    unfold run at h
    obtain ⟨n, hn, h⟩ := Option.bind_eq_some_iff.mp h
    split_ifs at h with hsome
    refine ⟨_, ⟨eval_solves (run_node_local torch gm inputs) hsorted _, hsome⟩, n.name, ?_, h⟩
    simp [output_name, hn]
  · rintro ⟨env, hruns, name, hname, hv⟩
    obtain ⟨n, hn, rfl⟩ := Option.map_eq_some_iff.mp hname
    have heval : ∀ m ∈ g, interpret torch gm inputs g m.name = env m.name := fun m hm =>
      hruns.solves.eval_eq (run_node_local torch gm inputs) hsorted _ hm
    have hsome : ∀ m ∈ g, (interpret torch gm inputs g m.name).isSome := fun m hm => by
      rw [heval m hm]
      exact hruns.isSome m hm
    unfold run
    rw [hn, Option.bind_eq_bind, Option.bind_some, if_pos hsome,
      heval n (List.mem_of_find?_eq_some hn), hv]

-- A graph that gives what another one gives, whenever this one runs.
structure Follows (torch : Torch F M T) (gm : GraphModule M T) (g g' : Graph F T) : Prop where
  sorted : SortedFrom [] g'
  output : output_name g' = output_name g
  runs : ∀ inputs env, Runs torch gm inputs g env →
    ∃ env', Runs torch gm inputs g' env' ∧ ∀ n, output_name g = some n → env' n = env n

theorem Follows.refl (hsorted : SortedFrom [] g) : Follows torch gm g g :=
  ⟨hsorted, rfl, fun _ env h => ⟨env, h, fun _ _ => rfl⟩⟩

theorem Follows.trans (h : Follows torch gm g g') (h' : Follows torch gm g' g'') :
    Follows torch gm g g'' := by
  refine ⟨h'.sorted, h'.output.trans h.output, fun inputs env hruns => ?_⟩
  obtain ⟨env', hruns', heq⟩ := h.runs inputs env hruns
  obtain ⟨env'', hruns'', heq'⟩ := h'.runs inputs env' hruns'
  refine ⟨env'', hruns'', fun n hn => ?_⟩
  rw [heq' n (h.output.trans hn), heq n hn]

theorem Follows.run (hsorted : SortedFrom [] g) (h : Follows torch gm g g') {v : Value T}
    (hrun : run torch gm inputs g = some v) : run torch gm inputs g' = some v := by
  obtain ⟨env, hruns, n, hn, hv⟩ := (run_eq_some_iff hsorted).mp hrun
  obtain ⟨env', hruns', heq⟩ := h.runs inputs env hruns
  exact (run_eq_some_iff h.sorted).mpr ⟨env', hruns', n, h.output.trans hn, (heq n hn).trans hv⟩

theorem output_name_flatMap {f : Node F T → List (Node F T)}
    (hf : ∀ m ∈ g, (f m).find? Node.is_output = none ∧ m.is_output = false ∨
      ∃ m', f m = [m'] ∧ m'.is_output = m.is_output ∧ m'.name = m.name) :
    output_name (g.flatMap f) = output_name g := by
  induction g with
  | nil => rfl
  | cons m g ih =>
      have hrest := ih fun k hk => hf k (List.mem_cons_of_mem _ hk)
      unfold output_name at hrest ⊢
      rw [List.flatMap_cons, List.find?_append, List.find?_cons]
      rcases hf m List.mem_cons_self with ⟨hnone, hm⟩ | ⟨m', hsingle, houtput, hname⟩
      · rw [hnone, hm, Option.none_or]
        exact hrest
      · rw [hsingle, List.find?_cons, houtput]
        cases m.is_output with
        | true => simp [hname]
        | false =>
            rw [List.find?_nil, Option.none_or]
            exact hrest

-- A graph in which each node becomes a block.
theorem follows_of_blocks (σ : Nat → Nat) (hsorted : SortedFrom [] g)
    {f : Node F T → List (Node F T)}
    (hblock : ∀ m ∈ g, Block σ m (f m)) (hnodup : ((g.flatMap f).map Node.name).Nodup)
    (houtput : ∀ m ∈ g, (f m).find? Node.is_output = none ∧ m.is_output = false ∨
      ∃ m', f m = [m'] ∧ m'.is_output = m.is_output ∧ m'.name = m.name)
    (hruns : ∀ inputs env, Runs torch gm inputs g env → ∃ env',
      (∀ m ∈ g, Runs torch gm inputs (f m) env') ∧
        ∀ m ∈ g, m.is_output = true → env' m.name = env m.name) :
    Follows torch gm g (g.flatMap f) := by
  refine ⟨?_, output_name_flatMap houtput, fun inputs env h => ?_⟩
  · exact hsorted.flatMap (fun _ ha => absurd ha List.not_mem_nil) hblock hnodup
      fun _ _ => List.not_mem_nil
  · obtain ⟨env', hblocks, hsame⟩ := hruns inputs env h
    refine ⟨env', ⟨solves_flatMap.mpr fun m hm => (hblocks m hm).solves, fun k hk => ?_⟩,
      fun n hn => ?_⟩
    · obtain ⟨m, hm, hk⟩ := List.mem_flatMap.mp hk
      exact (hblocks m hm).isSome k hk
    · obtain ⟨m, hm, rfl⟩ := Option.map_eq_some_iff.mp hn
      exact hsame m (List.mem_of_find?_eq_some hm) (List.find?_some hm)

end Runs

end TTXla.TTTorch.CompositeOps

import TTXla.TTTorch.CompositeOps.Outputs

-- A module of the graph and the call that replaces it.
namespace TTXla.TTTorch.CompositeOps

open TTXla.Dataflow

variable {F M T : Type} {torch : Torch F M T} {gm : GraphModule M T} {g g' : Graph F T} {n : Nat}
  {module : LayerNorm T}

theorem name_lt_fresh {m : Node F T} (hm : m ∈ g) : m.name < fresh_name g := by
  have hle : ∀ {l : List Nat} {a : Nat}, a ∈ l → a ≤ l.foldr max 0 := by
    intro l a ha
    induction l with
    | nil => exact absurd ha List.not_mem_nil
    | cons b l ih =>
        rcases List.mem_cons.mp ha with rfl | ha
        · exact le_max_left ..
        · exact (ih ha).trans (le_max_right ..)
  exact Nat.lt_succ_of_le (hle (List.mem_map_of_mem hm))

theorem uses_lt_fresh (hsorted : SortedFrom [] g) {m : Node F T} (hm : m ∈ g) {a : Nat}
    (ha : a ∈ m.op.uses) : a < fresh_name g := by
  rcases hsorted.args_mem hm ha with hmem | ⟨k, hk, rfl⟩
  · exact absurd hmem List.not_mem_nil
  · exact name_lt_fresh hk

section Call

theorem forward_eq_some {args : List (Value T)} {kwargs : List (String × Value T)}
    {x v : Value T} (hx : args[0]? = some x) (h : module.forward torch args kwargs = some v) :
    torch.layer_norm x (module.normalized_shape.map .int) (parameter module.weight)
      (parameter module.bias) (.float module.eps) = some v := by
  unfold LayerNorm.forward at h
  obtain ⟨bound, hbound, h⟩ := Option.bind_eq_some_iff.mp h
  cases args with
  | nil => cases hx
  | cons y rest =>
      obtain rfl : y = x := by simpa using hx
      unfold bind_call at hbound
      split_ifs at hbound
      rw [bind] at hbound
      split_ifs at hbound
      obtain ⟨others, hothers, hbound⟩ := Option.bind_eq_some_iff.mp hbound
      obtain rfl := Option.some.inj hbound
      split at h
      · rename_i heq
        obtain ⟨rfl, -⟩ := List.cons.inj heq
        exact h
      · cases h

theorem has_parameter {o : Option T}
    (h : module.elementwise_affine = false → o = none) (has : Bool)
    (hhas : has = (o.isSome && module.elementwise_affine)) {name : Nat} {target : String}
    {env : Nat → Option (Value T)} (henv : env name = some (parameter o)) :
    (affine_node (F := F) has name target).2.eval env = some (parameter o) := by
  cases has with
  | true => exact henv
  | false =>
      have ho : o = none := by
        cases o with
        | none => rfl
        | some t => exact h (by simpa using hhas.symm)
      rw [ho]
      rfl

theorem affine_node_names {has : Bool} {name : Nat} {target : String} {k : Node F T}
    (hk : k ∈ (affine_node (F := F) (T := T) has name target).1) :
    k = ⟨name, .get_attr target⟩ := by
  cases has with
  | true => exact List.mem_singleton.mp hk
  | false => exact absurd hk List.not_mem_nil

theorem affine_node_sublist (has : Bool) (name : Nat) (target : String) :
    ((affine_node (F := F) (T := T) has name target).1.map Node.name).Sublist [name] := by
  cases has with
  | true => exact List.Sublist.refl _
  | false => exact List.nil_sublist _

theorem affine_node_uses {has : Bool} {name : Nat} {target : String} {a : Nat}
    (ha : a ∈ (affine_node (F := F) (T := T) has name target).2.uses) :
    a = name ∧ a ∈ (affine_node (F := F) (T := T) has name target).1.map Node.name := by
  cases has with
  | true =>
      obtain rfl := List.mem_singleton.mp ha
      exact ⟨rfl, List.mem_cons_self⟩
  | false => exact absurd ha List.not_mem_nil

-- The composite gets what the module is called on and the parameters of the module.
theorem run_layer_norm_node {inputs : String → Option (Value T)}
    {env : Nat → Option (Value T)} {name : Nat} {input_tensor weight bias : Arg T} {x : Value T}
    (hx : input_tensor.eval env = some x)
    (hweight : weight.eval env = some (parameter module.weight))
    (hbias : bias.eval env = some (parameter module.bias)) :
    run_node torch gm inputs (layer_norm_node name input_tensor weight bias module) env =
      torch.layer_norm x (module.normalized_shape.map .int) (parameter module.weight)
        (parameter module.bias) (.float module.eps) := by
  have hargs : Arg.eval_all env [input_tensor] = some [x] := by
    simp [Arg.eval_all, hx]
  have hkwargs : Arg.eval_kwargs env [("normalized_shape", .value module.shape),
      ("eps", .value (.float module.eps)), ("weight", weight), ("bias", bias)] =
      some [("normalized_shape", module.shape), ("eps", .float module.eps),
        ("weight", parameter module.weight), ("bias", parameter module.bias)] := by
    simp [Arg.eval_kwargs, Arg.eval_all, Arg.eval, hweight, hbias]
  have hbind : bind_call layer_norm_params [x] [("normalized_shape", module.shape),
      ("eps", .float module.eps), ("weight", parameter module.weight),
      ("bias", parameter module.bias)] =
      some [x, module.shape, parameter module.weight, parameter module.bias,
        .float module.eps] := rfl
  simp only [run_node, layer_norm_node, hargs, hkwargs, Option.bind_eq_bind, Option.bind_some,
    call_function, hbind]
  simp [composite_layer_norm, LayerNorm.shape, sequence]

end Call

theorem input_uses {node : Node F T} {target : String} {args : List (Arg T)}
    {kwargs : List (String × Arg T)} (hop : node.op = .call_module target args kwargs) :
    ∀ input_tensor, args[0]? = some input_tensor →
      ∀ a ∈ input_tensor.uses, a ∈ node.op.uses := by
  intro input_tensor hinput a ha
  rw [hop, Op.uses, List.mem_append]
  refine Or.inl ?_
  cases args with
  | nil => cases hinput
  | cons x args =>
      obtain rfl := Option.some.inj hinput
      exact List.mem_append_left _ ha

theorem layer_norm_node_uses {name a : Nat} {input_tensor weight bias : Arg T}
    (ha : a ∈ (layer_norm_node (F := F) name input_tensor weight bias module).op.uses) :
    a ∈ input_tensor.uses ∨ a ∈ weight.uses ∨ a ∈ bias.uses := by
  simpa only [layer_norm_node, Op.uses, Arg.all_uses, Arg.uses, List.map_cons, List.map_nil,
    List.append_nil, List.nil_append, List.mem_append] using ha

section Module

-- The nodes before the call, in whose place they come.
def normalized (n c : Nat) (news : List (Node F T)) (m : Node F T) : List (Node F T) :=
  if m.name = n then news else [m.replace (redirection [n] c)]

theorem replace_layer_norm_some {node : Node F T} {target : String} {args : List (Arg T)}
    (hsorted : SortedFrom [] g) (hnode : node ∈ g) (hname : node.name = n)
    (hargs : ∀ input_tensor, args[0]? = some input_tensor →
      ∀ a ∈ input_tensor.uses, a ∈ node.op.uses)
    (h : replace_layer_norm_module g n target args module = some g') :
    ∃ input_tensor weight bias, args[0]? = some input_tensor ∧
      weight = affine_node (module.weight.isSome && module.elementwise_affine) (fresh_name g)
        (target ++ ".weight") ∧
      bias = affine_node (module.bias.isSome && module.elementwise_affine) (fresh_name g + 1)
        (target ++ ".bias") ∧
      g' = g.flatMap (normalized n (fresh_name g + 2) (weight.1 ++ bias.1 ++
        [layer_norm_node (fresh_name g + 2) input_tensor weight.2 bias.2 module])) := by
  unfold replace_layer_norm_module at h
  obtain ⟨input_tensor, hinput, h⟩ := Option.bind_eq_some_iff.mp h
  refine ⟨input_tensor, _, _, hinput, rfl, rfl, ?_⟩
  obtain ⟨rfl, -⟩ := erase_node_some h
  generalize hweight : affine_node (F := F) (T := T)
    (module.weight.isSome && module.elementwise_affine) (fresh_name g) (target ++ ".weight") =
    weight
  generalize hbias : affine_node (F := F) (T := T)
    (module.bias.isSome && module.elementwise_affine) (fresh_name g + 1) (target ++ ".bias") =
    bias
  have hfresh : n < fresh_name g := hname ▸ name_lt_fresh hnode
  generalize hnews : weight.1 ++ bias.1 ++
    [layer_norm_node (fresh_name g + 2) input_tensor weight.2 bias.2 module] = news
  have hkeep : ∀ k ∈ news, k.name ≠ n ∧ n ∉ k.op.uses := by
    intro k hk
    rw [← hnews, List.mem_append, List.mem_append] at hk
    rcases hk with (hk | hk) | hk
    · rw [← hweight] at hk
      rw [affine_node_names hk]
      exact ⟨Nat.ne_of_gt hfresh, List.not_mem_nil⟩
    · rw [← hbias] at hk
      rw [affine_node_names hk]
      exact ⟨Nat.ne_of_gt (Nat.lt_succ_of_lt hfresh), List.not_mem_nil⟩
    · obtain rfl := List.mem_singleton.mp hk
      refine ⟨fun h => by simp only [layer_norm_node] at h; omega, fun huse => ?_⟩
      rcases layer_norm_node_uses huse with huse | huse | huse
      · rw [← hname] at huse
        exact hsorted.label_notMem_args hnode (hargs _ hinput _ huse)
      · rw [← hweight] at huse
        have := (affine_node_uses huse).1
        omega
      · rw [← hbias] at huse
        have := (affine_node_uses huse).1
        omega
  have hreplace : news.map (Node.replace (redirection [n] (fresh_name g + 2))) = news := by
    conv_rhs => rw [← List.map_id' news]
    refine List.map_congr_left fun k hk => replace_eq_self fun a ha => ?_
    have hne : a ≠ n := by
      rintro rfl
      exact (hkeep k hk).2 ha
    simp [redirection, hne]
  have hfilter : news.filter (fun k => k.name ≠ n) = news :=
    List.filter_eq_self.mpr fun k hk => by simpa using (hkeep k hk).1
  rw [replace_all_uses_with_eq, insert_before, List.map_flatMap, List.filter_flatMap]
  refine List.flatMap_congr fun m _ => ?_
  unfold normalized
  have hlast : (layer_norm_node (fresh_name g + 2) input_tensor weight.2 bias.2 module :
      Node F T).name = fresh_name g + 2 := rfl
  by_cases hm : m.name = n
  · rw [if_pos hm, if_pos hm, hlast, List.map_append, hreplace, List.filter_append, hfilter]
    simp [hm]
  · rw [if_neg hm, if_neg hm, hlast]
    simp [hm]

theorem replace_layer_norm_follows (hsorted : SortedFrom [] g) {node : Node F T}
    {target : String} {args : List (Arg T)} {kwargs : List (String × Arg T)} (hnode : node ∈ g)
    (hname : node.name = n) (hop : node.op = .call_module target args kwargs)
    (hmodule : gm.get_submodule target = some (.LayerNorm module))
    (h : replace_layer_norm_module g n target args module = some g') :
    Follows torch gm g g' := by
  have hinput_uses := input_uses hop
  obtain ⟨input_tensor, weight, bias, hinput, hweight, hbias, rfl⟩ :=
    replace_layer_norm_some hsorted hnode hname hinput_uses h
  have hfresh : n < fresh_name g := hname ▸ name_lt_fresh hnode
  have hunique : ∀ {m : Node F T}, m ∈ g → m.name = n → m = node :=
    fun hm heq => hsorted.eq_of_label hm hnode (heq.trans hname.symm)
  have hattrs : ∀ k ∈ weight.1 ++ bias.1, k = ⟨fresh_name g, .get_attr (target ++ ".weight")⟩ ∨
      k = ⟨fresh_name g + 1, .get_attr (target ++ ".bias")⟩ := by
    intro k hk
    rw [List.mem_append, hweight, hbias] at hk
    exact hk.imp affine_node_names affine_node_names
  generalize hnew : layer_norm_node (F := F) (fresh_name g + 2) input_tensor weight.2 bias.2
    module = new_node
  have hnew_name : new_node.name = fresh_name g + 2 := by rw [← hnew]; rfl
  have hnew_uses : ∀ a ∈ new_node.op.uses, a ∈ input_tensor.uses ∨
      a ∈ (weight.1 ++ bias.1).map Node.name := by
    intro a ha
    rw [← hnew] at ha
    rw [List.map_append, List.mem_append, hweight, hbias]
    rcases layer_norm_node_uses ha with ha | ha | ha
    · exact Or.inl ha
    · exact Or.inr (Or.inl (affine_node_uses (hweight ▸ ha)).2)
    · exact Or.inr (Or.inr (affine_node_uses (hbias ▸ ha)).2)
  have hnames : ((weight.1 ++ bias.1 ++ [new_node]).map Node.name).Sublist
      [fresh_name g, fresh_name g + 1, fresh_name g + 2] := by
    rw [List.map_append, List.map_append, hweight, hbias, List.map_singleton, hnew_name]
    exact ((affine_node_sublist ..).append (affine_node_sublist ..)).append (.refl _)
  have hbound : ∀ a ∈ (weight.1 ++ bias.1 ++ [new_node]).map Node.name, fresh_name g ≤ a := by
    intro a ha
    have hmem := hnames.subset ha
    simp only [List.mem_cons, List.not_mem_nil, or_false] at hmem
    omega
  refine follows_of_blocks (redirection [n] (fresh_name g + 2)) hsorted
    (fun m hm => ?_) ?_ (fun m hm => ?_) fun inputs env hruns => ?_
  · unfold normalized
    split_ifs with hmn
    · obtain rfl := hunique hm hmn
      intro seen hseen hnodup hlabels
      refine ⟨sortedFrom_of_closed (fun k hk => ?_) (fun a ha => ?_) hnodup hlabels, Or.inr ?_⟩
      · rcases hattrs k hk with rfl | rfl
        · rfl
        · rfl
      · refine (hnew_uses a ha).imp_left fun hinput' => ?_
        have huse := hinput_uses input_tensor hinput a hinput'
        have hne : a ≠ n := by
          rintro heq
          refine hsorted.label_notMem_args hnode ?_
          rwa [label_eq, hname, ← heq]
        simpa [redirection, hne] using hseen a huse
      · simp [redirection, hmn, hnew_name]
    · exact Block.singleton (fun a ha => by simpa using ha) (by simp [redirection, hmn])
  · rw [List.map_flatMap, List.nodup_flatMap]
    refine ⟨fun m hm => ?_, ?_⟩
    · unfold normalized
      split_ifs with hmn
      · exact hnames.nodup (by simp)
      · exact List.nodup_singleton _
    · refine List.Pairwise.imp_of_mem ?_ (List.pairwise_map.mp hsorted.nodup)
      intro a b ha hb hne x hxa hxb
      simp only [label_eq] at hne
      dsimp only at hxa hxb
      unfold normalized at hxa hxb
      split_ifs at hxa hxb with hna hnb hnb
      · exact hne (hna.trans hnb.symm)
      · obtain rfl : x = b.name := by simpa using hxb
        exact absurd (hbound _ hxa) (by have := name_lt_fresh hb; omega)
      · obtain rfl : x = a.name := by simpa using hxa
        exact absurd (hbound _ hxb) (by have := name_lt_fresh ha; omega)
      · obtain rfl : x = a.name := by simpa using hxa
        exact hne (by simpa using hxb)
  · unfold normalized
    split_ifs with hmn
    · obtain rfl := hunique hm hmn
      refine Or.inl ⟨List.find?_eq_none.mpr fun k hk => ?_, by simp [Node.is_output, hop]⟩
      rcases List.mem_append.mp hk with hk | hk
      · rcases hattrs k hk with rfl | rfl
        · simp [Node.is_output]
        · simp [Node.is_output]
      · obtain rfl := List.mem_singleton.mp hk
        rw [← hnew]
        simp [Node.is_output, layer_norm_node]
    · exact Or.inr ⟨_, rfl, by simp, by simp⟩
  · obtain ⟨v, hv⟩ := Option.isSome_iff_exists.mp (hruns.isSome node hnode)
    have hrun := (hruns.solves node hnode).symm.trans hv
    obtain ⟨env', hold, hw, hb, hc⟩ : ∃ env' : Nat → Option (Value T),
        (∀ a < fresh_name g, env' a = env a) ∧
        env' (fresh_name g) = some (parameter module.weight) ∧
        env' (fresh_name g + 1) = some (parameter module.bias) ∧
        env' (fresh_name g + 2) = some v := by
      refine ⟨fun a => if a < fresh_name g then env a else
        if a = fresh_name g then some (parameter module.weight) else
        if a = fresh_name g + 1 then some (parameter module.bias) else some v, ?_, ?_, ?_, ?_⟩
      · exact fun a ha => if_pos ha
      · simp
      · simp
      · simp
    have hcall : run_node torch gm inputs new_node env' = some v := by
      simp only [run_node, hop] at hrun
      obtain ⟨values, hvalues, hrun⟩ := Option.bind_eq_some_iff.mp hrun
      obtain ⟨kwvalues, -, hrun⟩ := Option.bind_eq_some_iff.mp hrun
      rw [call_module, hmodule] at hrun
      obtain ⟨x, hx, hvalue⟩ := eval_all_get hvalues hinput
      rw [← hnew, run_layer_norm_node (x := x)]
      · exact forward_eq_some hvalue hrun
      · rw [← hx]
        refine Arg.eval_congr _ fun a ha => hold a ?_
        exact uses_lt_fresh hsorted hnode (hinput_uses input_tensor hinput a ha)
      · rw [hweight]
        exact has_parameter (fun h => (module.affine h).1) _ rfl hw
      · rw [hbias]
        exact has_parameter (fun h => (module.affine h).2) _ rfl hb
    refine ⟨env', fun m hm => ?_, fun m hm houtput => ?_⟩
    · unfold normalized
      split_ifs with hmn
      · refine ⟨fun k hk => ?_, fun k hk => ?_⟩
        · rcases List.mem_append.mp hk with hk | hk
          · rcases hattrs k hk with rfl | rfl
            · exact hw.trans (gm.weight target module hmodule).symm
            · exact hb.trans (gm.bias target module hmodule).symm
          · obtain rfl := List.mem_singleton.mp hk
            rw [label_eq, hnew_name, hc, hcall]
        · rcases List.mem_append.mp hk with hk | hk
          · rcases hattrs k hk with rfl | rfl
            · exact hw ▸ rfl
            · exact hb ▸ rfl
          · obtain rfl := List.mem_singleton.mp hk
            rw [hnew_name, hc]
            rfl
      · refine ⟨fun k hk => ?_, fun k hk => ?_⟩
        · obtain rfl := List.mem_singleton.mp hk
          rw [run_node_replace, run_node_local torch gm inputs m _ env, label_eq, replace_name,
            hold _ (name_lt_fresh hm)]
          · exact hruns.solves m hm
          · intro a ha
            have hlt := uses_lt_fresh hsorted hm ha
            by_cases han : a = n
            · simp [redirection, han, hc, ← hname, hv]
            · simp [redirection, han, hold a hlt]
        · obtain rfl := List.mem_singleton.mp hk
          rw [replace_name, hold _ (name_lt_fresh hm)]
          exact hruns.isSome m hm
    · exact hold _ (name_lt_fresh hm)

end Module

end TTXla.TTTorch.CompositeOps

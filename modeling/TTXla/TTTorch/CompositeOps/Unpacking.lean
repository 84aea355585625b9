import TTXla.TTTorch.CompositeOps.Meaning

-- Graphs in which the outputs of `topk` are only read by their own indices: the pass goes
-- through.
namespace TTXla.TTTorch.CompositeOps

open TTXla.Dataflow

variable {F M T : Type} {torch : Torch F M T} {gm : GraphModule M T} {g g' : Graph F T} {n : Nat}

-- What dynamo makes of `values, indices = torch.topk(..)`.
def Unpacked (g : Graph F T) (n : Nat) : Prop :=
  ∀ user ∈ users g n, ∃ i : Int, (i = 0 ∨ i = 1) ∧
    user.op = .call_function .getitem [.node n, .value (.int i)] []

-- The input of a layer norm is given by its position.
def Positional (gm : GraphModule M T) (node : Node F T) : Prop :=
  ∀ target args kwargs, node.op = .call_module target args kwargs →
    ∃ module, gm.get_submodule target = some module ∧ ∀ m, module = .LayerNorm m → args ≠ []

section Success

theorem Unpacked.getitem (h : Unpacked g n) {user : Node F T} (huser : user ∈ users g n) :
    user.is_getitem = true ∧ user.args[0]? = some (.node n) ∧
      ∃ i : Int, (i = 0 ∨ i = 1) ∧ user.index = some (some i) := by
  obtain ⟨i, hi, hop⟩ := h user huser
  exact ⟨by simp [Node.is_getitem, hop], by simp [Node.args, hop], i, hi,
    by simp [Node.index, Node.args, hop, Arg.as_int, Value.as_int]⟩

theorem use_outputs_isSome {l : Graph F T} {acc : Finset Int} (hacc : acc ⊆ {0, 1})
    (hl : ∀ user ∈ l, user.is_getitem = true ∧
      ∃ i : Int, (i = 0 ∨ i = 1) ∧ user.index = some (some i)) :
    ∃ used, l.foldlM (use_output g) acc = some used ∧ used ⊆ {0, 1} := by
  induction l generalizing acc with
  | nil => exact ⟨acc, rfl, hacc⟩
  | cons user l ih =>
      obtain ⟨hget, i, hi, hindex⟩ := hl user List.mem_cons_self
      obtain ⟨used', hused', hle⟩ : ∃ used', use_output g acc user = some used' ∧
          used' ⊆ {0, 1} := by
        refine ⟨if (users g user.name).isEmpty then acc else insert i acc, ?_, ?_⟩
        · rw [use_output, if_pos hget, hindex]
          rfl
        · split_ifs
          · exact hacc
          · refine Finset.insert_subset ?_ hacc
            rcases hi with rfl | rfl
            · simp
            · simp
      obtain ⟨used, hused, hsub⟩ := ih hle fun user hmem => hl user (List.mem_cons_of_mem _ hmem)
      refine ⟨used, ?_, hsub⟩
      rw [List.foldlM_cons, hused']
      exact hused

theorem Unpacked.indices (h : Unpacked g n) :
    ∃ used, _get_used_output_indices g n = some used ∧ used ⊆ {0, 1} :=
  use_outputs_isSome (Finset.empty_subset _) fun _ huser =>
    ⟨(h.getitem huser).1, (h.getitem huser).2.2⟩

theorem Unpacked.rewirable (h : Unpacked g n) : Rewirable g n := by
  intro used hused hcard
  obtain ⟨used', hused', hsub⟩ := h.indices
  obtain rfl := Option.some.inj (hused'.symm.trans hused)
  refine ⟨?_, fun user huser => ⟨(h.getitem huser).1, (h.getitem huser).2.1⟩⟩
  obtain ⟨i, rfl⟩ := Finset.card_eq_one.mp hcard
  have hi : i ∈ ({0, 1} : Finset Int) := hsub (Finset.mem_singleton_self i)
  rcases Finset.mem_insert.mp hi with rfl | hi
  · exact Or.inl rfl
  · obtain rfl := Finset.mem_singleton.mp hi
    exact Or.inr rfl

theorem redirects_isSome {l : Graph F T} (hl : ∀ gi ∈ l, ∃ i : Int, gi.index = some (some i))
    (used : Finset Int) : ∃ g', l.foldlM (redirect n used) g = some g' := by
  induction l generalizing g with
  | nil => exact ⟨g, rfl⟩
  | cons gi l ih =>
      obtain ⟨i, hi⟩ := hl gi List.mem_cons_self
      obtain ⟨g', hrest⟩ := ih (g := if i ∈ used then replace_all_uses_with g gi.name n else g)
        fun gi hgi => hl gi (List.mem_cons_of_mem _ hgi)
      refine ⟨g', ?_⟩
      rw [List.foldlM_cons, redirect, hi]
      exact hrest

theorem erase_node_isSome (h : ∀ m ∈ g, n ∉ m.op.uses) :
    erase_node g n = some (g.filter fun m => m.name ≠ n) := by
  have hempty : users g n = [] := by
    refine List.eq_nil_iff_forall_not_mem.mpr fun m hm => ?_
    obtain ⟨hm, huse⟩ := mem_users.mp hm
    exact h m hm huse
  rw [erase_node, hempty]
  rfl

theorem erase_nodes_isSome {l : Graph F T} (hl : ∀ gi ∈ l, ∀ m ∈ g, gi.name ∉ m.op.uses) :
    ∃ g', l.foldlM (fun g gi => erase_node g gi.name) g = some g' := by
  induction l generalizing g with
  | nil => exact ⟨g, rfl⟩
  | cons gi l ih =>
      obtain ⟨g', hrest⟩ := ih (g := g.filter fun m => m.name ≠ gi.name) fun gi' hgi' m hm =>
        hl gi' (List.mem_cons_of_mem _ hgi') m (List.mem_of_mem_filter hm)
      refine ⟨g', ?_⟩
      rw [List.foldlM_cons, erase_node_isSome (hl gi List.mem_cons_self)]
      exact hrest

theorem Unpacked.replace_isSome (hsorted : SortedFrom [] g) (h : Unpacked g n) :
    ∃ g', _replace_multi_output_op g n topk_variants = some g' := by
  obtain ⟨used, hused, -⟩ := h.indices
  unfold _replace_multi_output_op
  rw [hused, Option.bind_eq_bind, Option.bind_some, fallback_topk]
  obtain ⟨target, htarget⟩ : ∃ target,
      (topk_variants.lookup used).or (some (Function.composite_topk (F := F))) = some target := by
    cases topk_variants.lookup used with
    | none => exact ⟨_, rfl⟩
    | some target => exact ⟨target, rfl⟩
  rw [htarget, Option.bind_eq_bind, Option.bind_some]
  dsimp only
  split_ifs with hcard
  · have husers : ∀ user ∈ users g n, user.is_getitem = true :=
      fun user huser => (h.getitem huser).1
    rw [getitems_set_target hsorted husers]
    obtain ⟨g₂, hredirect⟩ := redirects_isSome (g := set_target g n target) (n := n)
      (fun gi hgi => (h.getitem hgi).2.2.imp fun _ hi => hi.2) used
    rw [hredirect, Option.bind_eq_bind, Option.bind_some]
    obtain rfl := redirects_some (user_ne hsorted) hredirect
    refine erase_nodes_isSome fun gi hgi m' hm' huse => ?_
    rw [set_target_eq, List.map_map] at hm'
    obtain ⟨m, hm, rfl⟩ := List.mem_map.mp hm'
    simp only [Function.comp_apply, uses_replace, retarget_uses] at huse
    obtain ⟨a, ha, heq⟩ := List.mem_map.mp huse
    unfold redirection at heq
    split_ifs at heq with hin
    · exact user_ne hsorted gi hgi heq.symm
    · obtain ⟨i, -, hindex⟩ := (h.getitem hgi).2.2
      refine hin (List.mem_map.mpr ⟨gi, List.mem_filter.mpr ⟨hgi, ?_⟩, heq.symm⟩)
      have hlive : i ∈ used :=
        used_of_live hused hgi (husers gi hgi) hindex ⟨m, hm, heq ▸ ha⟩
      simp [Node.redirected, hindex, hlive]
  · exact ⟨_, rfl⟩

theorem replace_layer_norm_isSome {node : Node F T} (hnode : node ∈ g) (hname : node.name = n)
    (target : String) {args : List (Arg T)} (hargs : args ≠ []) (module : LayerNorm T) :
    ∃ g', replace_layer_norm_module g n target args module = some g' := by
  obtain ⟨input_tensor, rest, rfl⟩ := List.exists_cons_of_ne_nil hargs
  have hfresh : n < fresh_name g := hname ▸ name_lt_fresh hnode
  refine ⟨_, erase_node_isSome fun m hm huse => ?_⟩
  rw [replace_all_uses_with_eq] at hm
  obtain ⟨k, -, rfl⟩ := List.mem_map.mp hm
  rw [uses_replace] at huse
  obtain ⟨a, -, heq⟩ := List.mem_map.mp huse
  unfold redirection at heq
  split_ifs at heq with hin
  · simp only [layer_norm_node] at heq
    omega
  · exact hin (List.mem_singleton.mpr heq)

end Success

section Stability

theorem calls_replace {σ : Nat → Nat} {m : Node F T} {f : Function F} :
    (m.replace σ).Calls f ↔ m.Calls f := by
  cases hop : m.op <;> simp [Node.Calls, Node.replace, Op.replace, hop]

theorem positional_replace {σ : Nat → Nat} {m : Node F T} (h : Positional gm m) :
    Positional gm (m.replace σ) := by
  intro target args kwargs hop
  cases hm : m.op with
  | call_module target' args' kwargs' =>
      simp only [Node.replace, Op.replace, hm, Op.call_module.injEq] at hop
      obtain ⟨rfl, rfl, -⟩ := hop
      obtain ⟨module, hmodule, hargs⟩ := h _ _ _ hm
      refine ⟨module, hmodule, fun m' hm' hnil => hargs m' hm' ?_⟩
      cases args' with
      | nil => rfl
      | cons a args' => cases hnil
  | _ => simp [Node.replace, Op.replace, hm] at hop

-- What comes in the place of the node has no replacement, and uses what the node does.
structure Done (g : Graph F T) (n : Nat) (σ : Nat → Nat) (k : Node F T) : Prop where
  calls : ∀ f, replacements f ≠ none → ¬k.Calls f
  module : ∀ target args kwargs, k.op ≠ .call_module target args kwargs
  uses : ∃ node ∈ g, node.name = n ∧ node.is_getitem = false ∧
    ∀ a ∈ k.op.uses, a ∈ node.op.uses.map σ ∨ fresh_name g ≤ a

-- The other nodes stay, with their uses redirected.
structure Leaves (g g' : Graph F T) (n : Nat) (σ : Nat → Nat) : Prop where
  nodes : ∀ k ∈ g', (∃ m ∈ g, m.name ≠ n ∧ k = m.replace σ) ∨ Done g n σ k
  redirected : ∀ a, σ a = a ∨ ((σ a = n ∨ fresh_name g ≤ σ a) ∧
    ∀ m ∈ g, m.name = a → m.name = n ∨ m.is_getitem = true)

theorem Leaves.unpacked {σ : Nat → Nat} (h : Leaves g g' n σ) {k : Node F T} (hk : k ∈ g)
    (hne : k.name ≠ n) (hget : k.is_getitem = false) (hunpacked : Unpacked g k.name) :
    Unpacked g' k.name := by
  have hself : σ k.name = k.name := by
    rcases h.redirected k.name with heq | ⟨-, hcases⟩
    · exact heq
    · rcases hcases k hk rfl with heq | heq
      · exact absurd heq hne
      · rw [heq] at hget
        cases hget
  have hback : ∀ {a : Nat}, σ a = k.name → a = k.name := by
    intro a ha
    rcases h.redirected a with heq | ⟨heq | heq, -⟩
    · exact heq.symm.trans ha
    · exact absurd (ha.symm.trans heq) hne
    · have hlt := name_lt_fresh hk
      omega
  intro user huser
  obtain ⟨huser, huse⟩ := mem_users.mp huser
  rcases h.nodes user huser with ⟨m, hm, -, rfl⟩ | ⟨-, -, node, hnode, -, hnode', huses⟩
  · rw [uses_replace] at huse
    obtain ⟨a, ha, heq⟩ := List.mem_map.mp huse
    obtain rfl := hback heq
    obtain ⟨i, hi, hop⟩ := hunpacked m (mem_users.mpr ⟨hm, ha⟩)
    refine ⟨i, hi, ?_⟩
    simp [Node.replace, Op.replace, hop, Arg.replace_all, Arg.replace, Arg.replace_kwargs, hself]
  · rcases huses _ huse with hmem | hle
    · obtain ⟨a, ha, heq⟩ := List.mem_map.mp hmem
      obtain rfl := hback heq
      obtain ⟨i, -, hop⟩ := hunpacked node (mem_users.mpr ⟨hnode, ha⟩)
      simp [Node.is_getitem, hop] at hnode'
    · have hlt := name_lt_fresh hk
      omega

theorem calls_set_target {f target : Function F} {m : Node F T} (hcalls : m.Calls f)
    {f' : Function F} (h : Node.Calls { m with op := m.op.set_target target } f') :
    f' = target := by
  obtain ⟨args, kwargs, hop⟩ | ⟨_, args, kwargs, hop, -⟩ := hcalls
  · simpa [Node.Calls, Op.set_target, hop, eq_comm] using h
  · simpa [Node.Calls, Op.set_target, hop, eq_comm] using h

theorem Node.Calls.is_getitem {m : Node F T} {f : Function F} (h : m.Calls f)
    (hf : replacements f ≠ none) : m.is_getitem = false := by
  obtain ⟨args, kwargs, hop⟩ | ⟨_, args, kwargs, hop, -⟩ := h
  · cases f with
    | getitem => exact absurd rfl hf
    | _ => simp [Node.is_getitem, hop]
  · simp [Node.is_getitem, hop]

-- The node itself, when its target is set to one without a replacement.
theorem retarget_done {node : Node F T} (hnode : node ∈ g) (hname : node.name = n)
    {f target : Function F} (hcalls : node.Calls f) (hf : replacements f ≠ none)
    (htarget : replacements target = none) (σ : Nat → Nat) :
    Done g n σ ((retarget n target node).replace σ) := by
  refine ⟨fun f' hf' h => ?_, fun path args kwargs h => ?_, node, hnode, hname,
    hcalls.is_getitem hf, fun a ha => Or.inl (by simpa using ha)⟩
  · rw [calls_replace, retarget, if_pos hname] at h
    exact hf' (calls_set_target hcalls h ▸ htarget)
  · obtain ⟨_, _, hop⟩ | ⟨_, _, _, hop, -⟩ := hcalls
    · simp [retarget, hname, Node.replace, hop, Op.set_target, Op.replace] at h
    · simp [retarget, hname, Node.replace, hop, Op.set_target, Op.replace] at h

theorem set_target_leaves (hsorted : SortedFrom [] g) {node : Node F T} (hnode : node ∈ g)
    (hname : node.name = n) {f target : Function F} (hcalls : node.Calls f)
    (hf : replacements f ≠ none) (htarget : replacements target = none) :
    Leaves g (set_target g n target) n id := by
  refine ⟨fun k hk => ?_, fun a => Or.inl rfl⟩
  rw [set_target_eq] at hk
  obtain ⟨m, hm, rfl⟩ := List.mem_map.mp hk
  have hid : ∀ m : Node F T, m.replace id = m := fun m => replace_eq_self fun _ _ => rfl
  by_cases heq : m.name = n
  · obtain rfl := hsorted.eq_of_label hm hnode (heq.trans hname.symm)
    have hdone := retarget_done hnode hname hcalls hf htarget id
    rw [hid] at hdone
    exact Or.inr hdone
  · exact Or.inl ⟨m, hm, heq, by rw [retarget_ne heq, hid]⟩

theorem rewired_leaves (hsorted : SortedFrom [] g) {node : Node F T} (hnode : node ∈ g)
    (hname : node.name = n) {f target : Function F} (hcalls : node.Calls f)
    (hf : replacements f ≠ none) (htarget : replacements target = none) {names : List Nat}
    (hnames : ∀ a ∈ names, ∃ m ∈ g, m.name = a ∧ m.is_getitem = true) :
    Leaves g (g.flatMap (rewired target n names)) n (redirection names n) := by
  refine ⟨fun k hk => ?_, fun a => ?_⟩
  · obtain ⟨m, hm, hk⟩ := List.mem_flatMap.mp hk
    unfold rewired at hk
    split_ifs at hk with huse
    · exact absurd hk List.not_mem_nil
    · obtain rfl := List.mem_singleton.mp hk
      by_cases heq : m.name = n
      · obtain rfl := hsorted.eq_of_label hm hnode (heq.trans hname.symm)
        exact Or.inr (retarget_done hnode hname hcalls hf htarget _)
      · exact Or.inl ⟨m, hm, heq, by rw [retarget_ne heq]⟩
  · by_cases ha : a ∈ names
    · refine Or.inr ⟨Or.inl (if_pos ha), fun m hm heq => Or.inr ?_⟩
      obtain ⟨m', hm', heq', hget⟩ := hnames a ha
      rwa [hsorted.eq_of_label hm hm' (heq.trans heq'.symm)]
    · exact Or.inl (if_neg ha)

theorem layer_norm_leaves (hsorted : SortedFrom [] g) {node : Node F T} (hnode : node ∈ g)
    (hname : node.name = n) {target : String} {args : List (Arg T)}
    {kwargs : List (String × Arg T)} (hop : node.op = .call_module target args kwargs)
    {module : LayerNorm T} (h : replace_layer_norm_module g n target args module = some g') :
    Leaves g g' n (redirection [n] (fresh_name g + 2)) := by
  have hgetitem : node.is_getitem = false := by simp [Node.is_getitem, hop]
  have hattr : ∀ {k : Node F T} {name : Nat} {path : String}, k = ⟨name, .get_attr path⟩ →
      Done g n (redirection [n] (fresh_name g + 2)) k := by
    rintro k name path rfl
    refine ⟨fun f _ h => ?_, fun _ _ _ h => ?_, node, hnode, hname, hgetitem,
      fun a ha => absurd ha List.not_mem_nil⟩
    · simp [Node.Calls] at h
    · cases h
  obtain ⟨input_tensor, weight, bias, hinput, hweight, hbias, rfl⟩ :=
    replace_layer_norm_some hsorted hnode hname (input_uses hop) h
  refine ⟨fun k hk => ?_, fun a => ?_⟩
  · obtain ⟨m, hm, hk⟩ := List.mem_flatMap.mp hk
    unfold normalized at hk
    split_ifs at hk with hmn
    · refine Or.inr ?_
      simp only [List.mem_append, hweight, hbias, List.mem_singleton] at hk
      rcases hk with (hk | hk) | rfl
      · exact hattr (affine_node_names hk)
      · exact hattr (affine_node_names hk)
      · refine ⟨fun f hf h => ?_, fun _ _ _ h => ?_, node, hnode, hname, hgetitem,
          fun a ha => ?_⟩
        · have hlayer_norm : f = .composite_layer_norm := by
            simpa [Node.Calls, layer_norm_node, eq_comm] using h
          exact hf (hlayer_norm ▸ rfl)
        · cases h
        · rcases layer_norm_node_uses ha with ha | ha | ha
          · have huse := input_uses hop input_tensor hinput a ha
            refine Or.inl (List.mem_map.mpr ⟨a, huse, if_neg fun han => ?_⟩)
            refine hsorted.label_notMem_args hnode ?_
            rwa [label_eq, hname, ← List.mem_singleton.mp han]
          · have hweight := (affine_node_uses ha).1
            omega
          · have hbias := (affine_node_uses ha).1
            omega
    · obtain rfl := List.mem_singleton.mp hk
      exact Or.inl ⟨m, hm, hmn, rfl⟩
  · by_cases ha : a = n
    · refine Or.inr ⟨Or.inr ?_, fun m _ hm => Or.inl (hm.trans ha)⟩
      simp [redirection, ha]
    · exact Or.inl (by simp [redirection, ha])

end Stability

section Pass

-- What holds of the nodes that the pass has still to get to.
structure Ready (gm : GraphModule M T) (names : List Nat) (g : Graph F T) : Prop where
  sorted : SortedFrom [] g
  unpacked : ∀ node ∈ g, node.name ∈ names → node.Calls .topk → Unpacked g node.name
  positional : ∀ node ∈ g, node.name ∈ names → Positional gm node

theorem Ready.leaves {names : List Nat} (h : Ready gm (n :: names) g) {σ : Nat → Nat}
    (hleaves : Leaves g g' n σ) (hsorted : SortedFrom [] g') : Ready gm names g' := by
  refine ⟨hsorted, fun k hk hname hcalls => ?_, fun k hk hname => ?_⟩
  · rcases hleaves.nodes k hk with ⟨m, hm, hne, rfl⟩ | hdone
    · rw [calls_replace] at hcalls
      have hunpacked : Unpacked g m.name := h.unpacked m hm (List.mem_cons_of_mem _ hname) hcalls
      exact hleaves.unpacked (k := m) hm hne (hcalls.is_getitem nofun) hunpacked
    · exact absurd hcalls (hdone.calls .topk nofun)
  · rcases hleaves.nodes k hk with ⟨m, hm, -, rfl⟩ | hdone
    · exact positional_replace (h.positional m hm (List.mem_cons_of_mem _ hname))
    · exact fun target args kwargs hop => absurd hop (hdone.module target args kwargs)

theorem Ready.tail {names : List Nat} (h : Ready gm (n :: names) g) : Ready gm names g :=
  ⟨h.sorted, fun node hnode hname => h.unpacked node hnode (List.mem_cons_of_mem _ hname),
    fun node hnode hname => h.positional node hnode (List.mem_cons_of_mem _ hname)⟩

theorem Ready.rewirable {names : List Nat} (h : Ready gm (n :: names) g)
    (htopk : ∃ node ∈ g, node.name = n ∧ node.Calls .topk) : Rewirable g n := by
  obtain ⟨node, hnode, rfl, hcalls⟩ := htopk
  exact (h.unpacked node hnode List.mem_cons_self hcalls).rewirable

theorem replacements_of_composite {f f' : Function F}
    (h : replacements f = some (.function f')) : replacements f' = none := by
  cases f with
  | gelu | rms_norm | functional_rms_norm | layer_norm =>
      cases h
      rfl
  | _ => cases h

theorem variant_replacements {used : Finset Int} {target : Function F}
    (h : (topk_variants.lookup used).or (fallback_variant topk_variants) = some target) :
    replacements target = none := by
  have hvariant : ∀ {f : Function F}, topk_variants.lookup used = some f →
      replacements f = none := by
    intro f hf
    obtain ⟨l, l', hsplit, -⟩ := List.lookup_eq_some_iff.mp hf
    have hmem : f ∈ topk_variants.map Prod.snd := by simp [hsplit]
    simp only [topk_variants, List.map_cons, List.map_nil, List.mem_cons, List.not_mem_nil,
      or_false] at hmem
    rcases hmem with rfl | rfl | rfl
    · rfl
    · rfl
    · rfl
  rcases Option.or_eq_some_iff.mp h with hf | ⟨-, hf⟩
  · exact hvariant hf
  · obtain rfl := Option.some.inj (fallback_topk.symm.trans hf)
    rfl

-- That a graph is in order does not depend on what its functions give.
def rejecting : Torch F M T where
  gelu _ _ := none
  rms_norm _ _ _ _ := none
  layer_norm _ _ _ _ _ := none
  topk _ _ _ _ _ := none
  getitem _ _ := none
  call _ _ _ := none
  method _ _ _ := none
  forward _ _ _ := none

-- A step on a function or a method that the pass looks up.
theorem Ready.replace_function {names : List Nat} (h : Ready gm (n :: names) g)
    {node : Node F T} (hnode : node ∈ g) (hname : node.name = n) {f : Function F}
    (hcalls : node.Calls f) : ∃ g', replace_function g n f = some g' ∧
      (g' = g ∨ ∃ σ, Leaves g g' n σ) := by
  unfold CompositeOps.replace_function
  cases hf : replacements f with
  | none => exact ⟨g, rfl, Or.inl rfl⟩
  | some replacement =>
      have hne : replacements f ≠ none := hf ▸ nofun
      cases replacement with
      | function f' =>
          exact ⟨_, rfl, Or.inr ⟨id, set_target_leaves h.sorted hnode hname hcalls hne
            (replacements_of_composite hf)⟩⟩
      | variants variants =>
          obtain ⟨rfl, rfl⟩ := replacements_variants hf
          have hunpacked : Unpacked g n :=
            hname ▸ h.unpacked node hnode (hname ▸ List.mem_cons_self) hcalls
          obtain ⟨g', hg'⟩ := hunpacked.replace_isSome h.sorted
          refine ⟨g', hg', Or.inr ?_⟩
          unfold _replace_multi_output_op at hg'
          obtain ⟨used, hused, hg'⟩ := Option.bind_eq_some_iff.mp hg'
          obtain ⟨target, htarget, hg'⟩ := Option.bind_eq_some_iff.mp hg'
          have htarget := variant_replacements htarget
          have husers : ∀ user ∈ users g n, user.is_getitem = true :=
            fun user huser => (hunpacked.getitem huser).1
          dsimp only at hg'
          split_ifs at hg' with hcard
          · obtain ⟨g₂, hredirect, herase⟩ := Option.bind_eq_some_iff.mp hg'
            obtain ⟨rfl, -⟩ := rewire_eq h.sorted husers hredirect herase
            refine ⟨_, rewired_leaves h.sorted hnode hname hcalls hne htarget fun a ha => ?_⟩
            obtain ⟨user, huser, rfl⟩ := List.mem_map.mp ha
            have huser := List.mem_of_mem_filter huser
            exact ⟨user, (mem_users.mp huser).1, rfl, husers user huser⟩
          · obtain rfl := Option.some.inj hg'
            exact ⟨id, set_target_leaves h.sorted hnode hname hcalls hne htarget⟩

theorem Ready.handle_node {names : List Nat} (h : Ready gm (n :: names) g) :
    ∃ g', handle_node g n gm = some g' ∧ (g' = g ∨ ∃ σ, Leaves g g' n σ) := by
  unfold CompositeOps.handle_node
  cases hfind : find_node g n with
  | none => exact ⟨g, rfl, Or.inl rfl⟩
  | some node =>
      obtain ⟨hnode, hname⟩ := find_node_some hfind
      cases hop : node.op with
      | call_function target args kwargs =>
          obtain ⟨g', hg', hleaves⟩ := h.replace_function hnode hname (Or.inl ⟨args, kwargs, hop⟩)
          exact ⟨g', by simp [hop, hg'], hleaves⟩
      | call_method target args kwargs =>
          cases hmethod : method_name_to_function (F := F) target with
          | none => exact ⟨g, by simp [hop, hmethod], Or.inl rfl⟩
          | some f =>
              obtain ⟨g', hg', hleaves⟩ := h.replace_function hnode hname
                (Or.inr ⟨target, args, kwargs, hop, hmethod⟩)
              exact ⟨g', by simp [hop, hmethod, hg'], hleaves⟩
      | call_module target args kwargs =>
          obtain ⟨module, hmodule, hargs⟩ :=
            h.positional node hnode (hname ▸ List.mem_cons_self) target args kwargs hop
          cases module with
          | LayerNorm m =>
              obtain ⟨g', hg'⟩ :=
                replace_layer_norm_isSome hnode hname target (hargs m rfl) m
              exact ⟨g', by simp [hop, hmodule, hg'],
                Or.inr ⟨_, layer_norm_leaves h.sorted hnode hname hop hg'⟩⟩
          | other m => exact ⟨g, by simp [hop, hmodule], Or.inl rfl⟩
      | _ => exact ⟨g, by simp [hop], Or.inl rfl⟩

theorem Ready.handle_nodes {names : List Nat} (h : Ready gm names g) :
    Rewires gm names g ∧
      ∃ g', names.foldlM (fun g n => CompositeOps.handle_node g n gm) g = some g' := by
  induction names generalizing g with
  | nil => exact ⟨trivial, g, rfl⟩
  | cons n names ih =>
      obtain ⟨g₁, hfirst, hcases⟩ := h.handle_node
      have hfollows : Follows rejecting gm g g₁ :=
        handle_node_follows h.sorted h.rewirable hfirst
      have hready : Ready gm names g₁ := by
        rcases hcases with rfl | ⟨σ, hleaves⟩
        · exact h.tail
        · exact h.leaves hleaves hfollows.sorted
      obtain ⟨hrewires, g', hrest⟩ := ih hready
      refine ⟨⟨h.rewirable, fun g₁' hg₁' => ?_⟩, g', ?_⟩
      · obtain rfl := Option.some.inj (hfirst.symm.trans hg₁')
        exact hrewires
      · rw [List.foldlM_cons, hfirst]
        exact hrest

-- Lists in descending order as tensors.
def list_topk : Value (List Int) → Value (List Int) →
    Option (Value (List Int) × Value (List Int))
  | .tensor t, .int k =>
      some (.tensor (t.take k.toNat), .tensor ((List.range k.toNat).map Int.ofNat))
  | _, _ => none

def list_torch : Torch Empty Empty (List Int) :=
  { rejecting with topk := fun input k _ _ _ => list_topk input k }

def no_modules : GraphModule Empty (List Int) := ⟨fun _ => none, fun _ => none, nofun, nofun⟩

def descending (target : String) : Option (Value (List Int)) :=
  if target = "x" then some (.tensor [9, 5, 2]) else none

-- The indices are used, and the values are not.
def indices_graph (index : Int) : Graph Empty (List Int) :=
  [⟨0, .placeholder "x"⟩, ⟨1, .call_method "topk" [.node 0, .value (.int 2)] []⟩,
    ⟨2, .call_function .getitem [.node 1, .value (.int 0)] []⟩,
    ⟨3, .call_function .getitem [.node 1, .value (.int index)] []⟩,
    ⟨4, .output (.tuple [.node 3])⟩]

-- With an index from the end, the user of the getitem gets the whole tuple.
example : run list_torch no_modules descending (indices_graph (-1)) =
      some (.tuple [.tensor [0, 1]]) ∧
    (handle_composite_ops (indices_graph (-1)) no_modules).bind
      (run list_torch no_modules descending) =
      some (.tuple [.tuple [.tensor [9, 5], .tensor [0, 1]]]) := ⟨rfl, rfl⟩

end Pass

end TTXla.TTTorch.CompositeOps

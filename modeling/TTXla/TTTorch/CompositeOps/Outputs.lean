import TTXla.TTTorch.CompositeOps.Replacing

-- A node of several outputs, the calls of getitem on it, and what replaces them.
namespace TTXla.TTTorch.CompositeOps

open TTXla.Dataflow

variable {F M T : Type} {g g' : Graph F T} {n : Nat} {used : Finset Int}

section Users

@[simp] theorem mem_users {m : Node F T} : m ∈ users g n ↔ m ∈ g ∧ n ∈ m.op.uses := by
  simp [users]

theorem use_output_some {used' : Finset Int} {user : Node F T}
    (h : use_output g used user = some used') :
    used ⊆ used' ∧ (user.is_getitem = true → ∃ index, user.index = some index ∧
      ∀ i, index = some i → (∃ m ∈ g, user.name ∈ m.op.uses) → i ∈ used') := by
  unfold use_output at h
  by_cases hgetitem : user.is_getitem = true
  · rw [if_pos hgetitem] at h
    obtain ⟨index, hindex, h⟩ := Option.bind_eq_some_iff.mp h
    cases index with
    | none =>
        obtain rfl := Option.some.inj h
        exact ⟨subset_rfl, fun _ => ⟨none, hindex, fun i hi => nomatch hi⟩⟩
    | some i =>
        obtain rfl := Option.some.inj h
        refine ⟨?_, fun _ => ⟨some i, hindex, fun j hj hlive => ?_⟩⟩
        · split_ifs
          · exact subset_rfl
          · exact Finset.subset_insert i used
        · obtain rfl := Option.some.inj hj
          obtain ⟨m, hm, huse⟩ := hlive
          have hne : users g user.name ≠ [] :=
            List.ne_nil_of_mem (mem_users.mpr ⟨hm, huse⟩)
          simp [List.isEmpty_iff, hne]
  · rw [if_neg hgetitem] at h
    obtain rfl := Option.some.inj h
    exact ⟨subset_rfl, fun hget => absurd hget hgetitem⟩

theorem use_outputs_some {l : Graph F T} {acc : Finset Int}
    (h : l.foldlM (use_output g) acc = some used) :
    acc ⊆ used ∧ ∀ user ∈ l, user.is_getitem = true → ∃ index, user.index = some index ∧
      ∀ i, index = some i → (∃ m ∈ g, user.name ∈ m.op.uses) → i ∈ used := by
  induction l generalizing acc with
  | nil =>
      obtain rfl := Option.some.inj h
      exact ⟨subset_rfl, fun user hmem => absurd hmem List.not_mem_nil⟩
  | cons user l ih =>
      obtain ⟨used', hhead, hrest⟩ := Option.bind_eq_some_iff.mp h
      obtain ⟨hle, hhead⟩ := use_output_some hhead
      obtain ⟨hle', htail⟩ := ih hrest
      refine ⟨hle.trans hle', List.forall_mem_cons.mpr ⟨fun hget => ?_, htail⟩⟩
      obtain ⟨index, hindex, hused⟩ := hhead hget
      exact ⟨index, hindex, fun i hi hlive => hle' (hused i hi hlive)⟩

-- An integer at which some node reads the output that something uses.
theorem used_of_live (h : _get_used_output_indices g n = some used) {user : Node F T} {i : Int}
    (huser : user ∈ users g n) (hget : user.is_getitem = true)
    (hindex : user.index = some (some i)) (hlive : ∃ m ∈ g, user.name ∈ m.op.uses) :
    i ∈ used := by
  obtain ⟨index, hindex', hused⟩ := (use_outputs_some h).2 user huser hget
  obtain rfl := Option.some.inj (hindex.symm.trans hindex')
  exact hused i rfl hlive

end Users

section Getitems

-- The calls of getitem whose uses go to the composite.
def Node.redirected (used : Finset Int) (gi : Node F T) : Bool :=
  match gi.index with
  | some (some i) => i ∈ used
  | _ => false

def redirection (names : List Nat) (n a : Nat) : Nat := if a ∈ names then n else a

theorem replace_all_uses_with_eq (g : Graph F T) (n new : Nat) :
    replace_all_uses_with g n new = g.map (Node.replace (redirection [n] new)) := by
  have hσ : (fun a => if a = n then new else a) = redirection [n] new := by
    funext a
    simp [redirection]
  rw [replace_all_uses_with, hσ]

theorem redirection_comp {names names' : List Nat} (hn : n ∉ names') :
    redirection names' n ∘ redirection names n = redirection (names ++ names') n := by
  funext a
  by_cases ha : a ∈ names
  · simp [redirection, ha, hn]
  · simp [redirection, ha]

theorem redirect_some {gi : Node F T} (h : redirect n used g gi = some g') :
    g' = g.map (Node.replace (redirection
      (([gi].filter (Node.redirected used)).map Node.name) n)) := by
  have hid : g = g.map (Node.replace (redirection [] n)) := by
    have hreplace : ∀ m ∈ g, m.replace (redirection [] n) = m :=
      fun m _ => replace_eq_self fun a _ => by simp [redirection]
    rw [List.map_congr_left hreplace, List.map_id']
  unfold redirect at h
  obtain ⟨index, hindex, h⟩ := Option.bind_eq_some_iff.mp h
  cases index with
  | none =>
      obtain rfl := Option.some.inj h
      simpa [Node.redirected, hindex] using hid
  | some i =>
      obtain rfl := Option.some.inj h
      by_cases hi : i ∈ used
      · simp [Node.redirected, hindex, hi, replace_all_uses_with_eq]
      · simpa [Node.redirected, hindex, hi] using hid

theorem redirects_some {l : Graph F T} (hl : ∀ gi ∈ l, gi.name ≠ n)
    (h : l.foldlM (redirect n used) g = some g') :
    g' = g.map (Node.replace
      (redirection ((l.filter (Node.redirected used)).map Node.name) n)) := by
  induction l generalizing g with
  | nil =>
      obtain rfl := Option.some.inj h
      have hreplace : ∀ m ∈ g, m.replace (redirection [] n) = m :=
        fun m _ => replace_eq_self fun a _ => by simp [redirection]
      simp [List.map_congr_left hreplace]
  | cons gi l ih =>
      obtain ⟨g₁, hfirst, hrest⟩ := Option.bind_eq_some_iff.mp h
      obtain rfl := redirect_some hfirst
      obtain rfl := ih (fun gi hgi => hl gi (List.mem_cons_of_mem _ hgi)) hrest
      have hn : n ∉ (l.filter (Node.redirected used)).map Node.name := by
        intro hmem
        obtain ⟨gi', hgi', rfl⟩ := List.mem_map.mp hmem
        exact hl gi' (List.mem_cons_of_mem _ (List.mem_of_mem_filter hgi')) rfl
      rw [List.map_map]
      refine List.map_congr_left fun m _ => (replace_replace m).trans ?_
      rw [redirection_comp hn, ← List.map_append, ← List.filter_append, List.singleton_append]

theorem erase_node_some (h : erase_node g n = some g') :
    g' = g.filter (fun m => m.name ≠ n) ∧ ∀ m ∈ g, n ∉ m.op.uses := by
  unfold erase_node at h
  split_ifs at h with hempty
  refine ⟨(Option.some.inj h).symm, fun m hm huse => ?_⟩
  have hmem : m ∈ users g n := mem_users.mpr ⟨hm, huse⟩
  rw [List.isEmpty_iff.mp hempty] at hmem
  exact absurd hmem List.not_mem_nil

theorem erase_nodes_some {l : Graph F T}
    (h : l.foldlM (fun g gi => erase_node g gi.name) g = some g') :
    g' = g.filter (fun m => m.name ∉ l.map Node.name) ∧
      ∀ gi ∈ l, ∀ m ∈ g', gi.name ∉ m.op.uses := by
  induction l generalizing g with
  | nil =>
      obtain rfl := Option.some.inj h
      exact ⟨by simp, fun gi hgi => absurd hgi List.not_mem_nil⟩
  | cons gi l ih =>
      obtain ⟨g₁, hfirst, hrest⟩ := Option.bind_eq_some_iff.mp h
      obtain ⟨rfl, hunused⟩ := erase_node_some hfirst
      obtain ⟨rfl, hunused'⟩ := ih hrest
      refine ⟨?_, List.forall_mem_cons.mpr ⟨fun m hm => ?_, hunused'⟩⟩
      · rw [List.filter_filter]
        refine List.filter_congr fun m _ => ?_
        simp only [List.map_cons, List.mem_cons, not_or, ← Bool.decide_and, and_comm]
      · exact hunused m (List.mem_of_mem_filter (List.mem_of_mem_filter hm))

end Getitems

section Topk

variable {torch : Torch F M T} {gm : GraphModule M T}

-- The case in which one output is used: it is the first or the second one, and every user is a
-- call of getitem on the node.
def Rewirable (g : Graph F T) (n : Nat) : Prop :=
  ∀ used, _get_used_output_indices g n = some used → used.card = 1 →
    (used = {0} ∨ used = {1}) ∧
      ∀ user ∈ users g n, user.is_getitem = true ∧ user.args[0]? = some (.node n)

theorem fallback_topk : fallback_variant (topk_variants (F := F)) = some .composite_topk := rfl

theorem variant_of_card (h : used.card ≠ 1) :
    ((topk_variants (F := F)).lookup used).or (fallback_variant topk_variants) =
      some .composite_topk := by
  have hzero : (used == ({0} : Finset Int)) = false := by
    rw [beq_eq_false_iff_ne]
    rintro rfl
    exact h (Finset.card_singleton 0)
  have hone : (used == ({1} : Finset Int)) = false := by
    rw [beq_eq_false_iff_ne]
    rintro rfl
    exact h (Finset.card_singleton 1)
  rw [fallback_topk]
  cases hboth : used == ({0, 1} : Finset Int) with
  | true => simp [topk_variants, List.lookup_cons, hboth]
  | false => simp [topk_variants, List.lookup_cons, hboth, hzero, hone]

-- What a call of `topk` gives, and what it gives with the other targets.
theorem run_topk_node {inputs : String → Option (Value T)} {env : Nat → Option (Value T)}
    {node : Node F T} {v : Value T} (hcalls : node.Calls .topk)
    (h : run_node torch gm inputs node env = some v) :
    ∃ values indices, v = .tuple [values, indices] ∧
      (∀ target, target = .composite_topk →
        run_node torch gm inputs { node with op := node.op.set_target target } env = some v) ∧
      (∀ target, target = .composite_topk_values →
        run_node torch gm inputs { node with op := node.op.set_target target } env =
          some values) ∧
      ∀ target, target = .composite_topk_indices →
        run_node torch gm inputs { node with op := node.op.set_target target } env =
          some indices := by
  rw [run_node_of_calls torch gm inputs hcalls] at h
  obtain ⟨x, hx, h⟩ := Option.bind_eq_some_iff.mp h
  obtain ⟨values, indices, rfl, hboth, hvalues, hindices⟩ := call_topk h
  refine ⟨values, indices, rfl, ?_, ?_, ?_⟩
  · rintro target rfl
    rw [run_node_set_target torch gm inputs hcalls, hx, Option.bind_some, hboth]
  · rintro target rfl
    rw [run_node_set_target torch gm inputs hcalls, hx, Option.bind_some, hvalues]
  · rintro target rfl
    rw [run_node_set_target torch gm inputs hcalls, hx, Option.bind_some, hindices]

theorem is_getitem_iff {m : Node F T} :
    m.is_getitem = true ↔ ∃ args kwargs, m.op = .call_function .getitem args kwargs := by
  constructor
  · intro h
    unfold Node.is_getitem at h
    split at h
    · exact ⟨_, _, by assumption⟩
    · cases h
  · rintro ⟨args, kwargs, hop⟩
    simp [Node.is_getitem, hop]

theorem call_getitem_eq_some {args : List (Value T)} {kwargs : List (String × Value T)}
    {v : Value T} : call_function torch .getitem args kwargs = some v ↔
      ∃ x index, args = [x, index] ∧ kwargs = [] ∧ getitem torch x index = some v := by
  constructor
  · intro h
    simp only [call_function] at h
    split at h
    · exact ⟨_, _, rfl, rfl, h⟩
    · cases h
  · rintro ⟨x, index, rfl, rfl, h⟩
    exact h

theorem eval_all_get {env : Nat → Option (Value T)} {args : List (Arg T)}
    {values : List (Value T)} (h : Arg.eval_all env args = some values) {k : Nat} {a : Arg T}
    (ha : args[k]? = some a) : ∃ v, a.eval env = some v ∧ values[k]? = some v := by
  induction args generalizing values k with
  | nil => cases ha
  | cons x args ih =>
      obtain ⟨v, hv, h⟩ := Option.bind_eq_some_iff.mp h
      obtain ⟨rest, hrest, h⟩ := Option.bind_eq_some_iff.mp h
      obtain rfl := Option.some.inj h
      cases k with
      | zero =>
          obtain rfl := Option.some.inj ha
          exact ⟨v, hv, rfl⟩
      | succ k => exact ih hrest ha

-- What a call of getitem on a node gives.
theorem run_getitem {inputs : String → Option (Value T)} {env : Nat → Option (Value T)}
    {user : Node F T} {i : Int} {values : List (Value T)} {v : Value T}
    (hget : user.is_getitem = true) (hnode : user.args[0]? = some (.node n))
    (hindex : user.index = some (some i)) (htuple : env n = some (.tuple values))
    (h : run_node torch gm inputs user env = some v) : tuple_get values i = some v := by
  obtain ⟨args, kwargs, hop⟩ := is_getitem_iff.mp hget
  simp only [Node.index, Node.args, hop] at hindex hnode
  obtain ⟨a, ha, hint⟩ := Option.map_eq_some_iff.mp hindex
  simp only [run_node, hop] at h
  obtain ⟨bound, hbound, h⟩ := Option.bind_eq_some_iff.mp h
  obtain ⟨kwbound, -, h⟩ := Option.bind_eq_some_iff.mp h
  obtain ⟨x, index, rfl, -, h⟩ := call_getitem_eq_some.mp h
  obtain ⟨y, hy, hx⟩ := eval_all_get hbound hnode
  obtain ⟨w, hw, hindex'⟩ := eval_all_get hbound ha
  obtain rfl := Option.some.inj hx
  obtain rfl := Option.some.inj hindex'
  obtain rfl := Option.some.inj (hy.symm.trans htuple)
  cases a with
  | value w =>
      obtain rfl := Option.some.inj hw
      have hw : w.as_int = some i := hint
      simpa only [getitem, hw] using h
  | node name => cases hint
  | tuple args => cases hint

theorem filter_map_eq_flatMap {A B : Type} (p : A → Bool) (h : A → B) (l : List A) :
    (l.filter p).map h = l.flatMap fun x => if p x = true then [h x] else [] := by
  induction l with
  | nil => rfl
  | cons x l ih =>
      rw [List.filter_cons, List.flatMap_cons]
      cases p x with
      | true => simpa using ih
      | false => simpa using ih

-- The getitems on the node are gone, and their uses go to the node.
def rewired (target : Function F) (n : Nat) (names : List Nat) (m : Node F T) :
    List (Node F T) :=
  if n ∈ m.op.uses then [] else [(retarget n target m).replace (redirection names n)]

theorem flatMap_rewired (g : Graph F T) (target : Function F) (n : Nat) (names : List Nat) :
    g.flatMap (rewired target n names) = (g.filter fun m => n ∉ m.op.uses).map fun m =>
      (retarget n target m).replace (redirection names n) := by
  rw [filter_map_eq_flatMap]
  refine List.flatMap_congr fun m _ => ?_
  by_cases huse : n ∈ m.op.uses
  · simp [rewired, huse]
  · simp [rewired, huse]

theorem rewired_nodup (hsorted : SortedFrom [] g) (target : Function F) (names : List Nat) :
    ((g.flatMap (rewired target n names)).map Node.name).Nodup := by
  have hcomp : (Node.name ∘ fun m => (retarget n target m).replace (redirection names n)) =
      Node.name (F := F) (T := T) := by
    funext m
    simp
  rw [flatMap_rewired, List.map_map, hcomp]
  exact (List.filter_sublist.map _).nodup hsorted.nodup

theorem user_ne (hsorted : SortedFrom [] g) : ∀ user ∈ users g n, user.name ≠ n := by
  rintro user huser rfl
  obtain ⟨hmem, huse⟩ := mem_users.mp huser
  exact hsorted.label_notMem_args hmem huse

theorem getitems_set_target (hsorted : SortedFrom [] g)
    (husers : ∀ user ∈ users g n, user.is_getitem = true) (target : Function F) :
    (users (set_target g n target) n).filter Node.is_getitem = users g n := by
  have huses : users (set_target g n target) n = (users g n).map (retarget n target) := by
    rw [set_target_eq, users, users, List.filter_map]
    simp [Function.comp_def]
  have hsame : (users g n).map (retarget n target) = users g n := by
    conv_rhs => rw [← List.map_id' (users g n)]
    exact List.map_congr_left fun user huser => retarget_ne (user_ne hsorted user huser)
  rw [huses, hsame, List.filter_eq_self]
  exact husers

-- What the code computes in the case of one output.
theorem rewire_eq (hsorted : SortedFrom [] g) {target : Function F}
    (husers : ∀ user ∈ users g n, user.is_getitem = true) {g₂ : Graph F T}
    (hredirect : ((users (set_target g n target) n).filter Node.is_getitem).foldlM
      (redirect n used) (set_target g n target) = some g₂)
    (herase : ((users (set_target g n target) n).filter Node.is_getitem).foldlM
      (fun g gi => erase_node g gi.name) g₂ = some g') :
    g' = g.flatMap (rewired target n (((users g n).filter (Node.redirected used)).map
      Node.name)) ∧
      ∀ user ∈ users g n, user.redirected used = false →
        ∀ m ∈ g, n ∉ m.op.uses → user.name ∉ m.op.uses := by
  rw [getitems_set_target hsorted husers] at hredirect herase
  obtain rfl := redirects_some (user_ne hsorted) hredirect
  obtain ⟨rfl, hunused⟩ := erase_nodes_some herase
  generalize hnames : ((users g n).filter (Node.redirected used)).map Node.name = names at *
  have hmem : ∀ m ∈ g, m.name ∉ (users g n).map Node.name ↔ n ∉ m.op.uses := by
    refine fun m hm => not_congr ⟨fun h => ?_, fun huse => ?_⟩
    · obtain ⟨user, huser, heq⟩ := List.mem_map.mp h
      obtain ⟨huser, huse⟩ := mem_users.mp huser
      rwa [← hsorted.eq_of_label huser hm heq]
    · exact List.mem_map_of_mem (mem_users.mpr ⟨hm, huse⟩)
  have heq : ((set_target g n target).map (Node.replace (redirection names n))).filter
      (fun m => m.name ∉ (users g n).map Node.name) = g.flatMap (rewired target n names) := by
    rw [set_target_eq, List.map_map, List.filter_map, flatMap_rewired]
    refine congrArg _ (List.filter_congr fun m hm => ?_)
    simp only [Function.comp_apply, replace_name, retarget_name]
    exact decide_eq_decide.mpr (hmem m hm)
  refine ⟨heq, fun user huser hdead m hm huse hused => ?_⟩
  have hrewired : (retarget n target m).replace (redirection names n) ∈
      g.flatMap (rewired target n names) := by
    refine List.mem_flatMap.mpr ⟨m, hm, ?_⟩
    simp [rewired, huse]
  rw [← heq] at hrewired
  refine hunused user huser _ hrewired ?_
  rw [uses_replace, retarget_uses]
  refine List.mem_map.mpr ⟨user.name, hused, if_neg fun hin => ?_⟩
  rw [← hnames] at hin
  obtain ⟨user', huser', hname'⟩ := List.mem_map.mp hin
  obtain ⟨huser', hlive⟩ := List.mem_filter.mp huser'
  rw [hsorted.eq_of_label (mem_users.mp huser').1 (mem_users.mp huser).1 hname', hdead] at hlive
  cases hlive

-- The node gives what the getitems on it gave that are used.
theorem rewired_follows (hsorted : SortedFrom [] g) {target : Function F} {names : List Nat}
    (hnames : names = ((users g n).filter (Node.redirected used)).map Node.name)
    (husers : ∀ user ∈ users g n, user.is_getitem = true ∧ user.args[0]? = some (.node n))
    (hdead : ∀ user ∈ users g n, user.redirected used = false →
      ∀ m ∈ g, n ∉ m.op.uses → user.name ∉ m.op.uses)
    (hvalue : ∀ inputs env, Runs torch gm inputs g env → ∃ values v,
      env n = some (.tuple values) ∧ (∀ i ∈ used, tuple_get values i = some v) ∧
      ∀ m ∈ g, m.name = n → m.is_output = false ∧
        run_node torch gm inputs (retarget n target m) env = some v) :
    Follows torch gm g (g.flatMap (rewired target n names)) := by
  have hin : ∀ {a : Nat}, a ∈ names →
      ∃ user ∈ users g n, user.redirected used = true ∧ user.name = a := by
    intro a ha
    rw [hnames] at ha
    obtain ⟨user, huser, rfl⟩ := List.mem_map.mp ha
    obtain ⟨huser, hlive⟩ := List.mem_filter.mp huser
    exact ⟨user, huser, hlive, rfl⟩
  have hgone : ∀ {m : Node F T}, n ∈ m.op.uses → rewired target n names m = [] :=
    fun huse => if_pos huse
  have hkept : ∀ {m : Node F T}, n ∉ m.op.uses → rewired target n names m =
      [(retarget n target m).replace (redirection names n)] := fun huse => if_neg huse
  have hself : n ∉ (users g n).map Node.name := by
    intro hmem
    obtain ⟨user, huser, rfl⟩ := List.mem_map.mp hmem
    exact hsorted.label_notMem_args (mem_users.mp huser).1 (mem_users.mp huser).2
  -- a getitem that nothing redirects is not used by what stays
  have hsame : ∀ m ∈ g, n ∉ m.op.uses → ∀ a ∈ m.op.uses,
      redirection names n a = redirection ((users g n).map Node.name) n a := by
    intro m hm huse a ha
    unfold redirection
    refine if_congr ⟨fun hmem => ?_, fun hmem => ?_⟩ rfl rfl
    · obtain ⟨user, huser, -, rfl⟩ := hin hmem
      exact List.mem_map_of_mem huser
    · obtain ⟨user, huser, rfl⟩ := List.mem_map.mp hmem
      rw [hnames]
      cases hlive : user.redirected used with
      | false => exact absurd ha (hdead user huser hlive m hm huse)
      | true => exact List.mem_map_of_mem (List.mem_filter.mpr ⟨huser, hlive⟩)
  refine follows_of_blocks (redirection ((users g n).map Node.name) n) hsorted
    (fun m hm => ?_) ?_ (fun m hm => ?_) fun inputs env hruns => ?_
  · by_cases huse : n ∈ m.op.uses
    · rw [hgone huse]
      refine Block.removed (a := n) huse ?_
      have hmem : m.name ∈ (users g n).map Node.name :=
        List.mem_map_of_mem (mem_users.mpr ⟨hm, huse⟩)
      simp [redirection, hmem]
    · rw [hkept huse]
      refine Block.singleton (fun a ha => ?_) ?_
      · simp only [args_eq, uses_replace, retarget_uses] at ha
        obtain ⟨b, hb, rfl⟩ := List.mem_map.mp ha
        exact ⟨b, hb, (hsame m hm huse b hb).symm⟩
      · have hmem : m.name ∉ (users g n).map Node.name := by
          intro hmem
          obtain ⟨user, huser, heq⟩ := List.mem_map.mp hmem
          obtain ⟨huser, huse'⟩ := mem_users.mp huser
          rw [hsorted.eq_of_label huser hm heq] at huse'
          exact huse huse'
        simp only [label_eq, replace_name, retarget_name]
        exact if_neg hmem
  · exact rewired_nodup hsorted target names
  · by_cases huse : n ∈ m.op.uses
    · rw [hgone huse]
      obtain ⟨args, kwargs, hop⟩ :=
        is_getitem_iff.mp (husers m (mem_users.mpr ⟨hm, huse⟩)).1
      exact Or.inl ⟨rfl, by simp [Node.is_output, hop]⟩
    · rw [hkept huse]
      exact Or.inr ⟨_, rfl, by simp, by simp⟩
  · obtain ⟨values, v, htuple, hget, hrun⟩ := hvalue inputs env hruns
    refine ⟨Function.update env n (some v), fun m hm => ?_, fun m hm houtput => ?_⟩
    · by_cases huse : n ∈ m.op.uses
      · rw [hgone huse]
        exact ⟨fun k hk => absurd hk List.not_mem_nil, fun k hk => absurd hk List.not_mem_nil⟩
      · have hargs : ∀ a ∈ m.op.uses,
            (Function.update env n (some v) ∘ redirection names n) a = env a := by
          intro a ha
          by_cases hmem : a ∈ names
          · obtain ⟨user, huser, hlive, rfl⟩ := hin hmem
            have hnode : user ∈ g := (mem_users.mp huser).1
            obtain ⟨w, hw⟩ := Option.isSome_iff_exists.mp (hruns.isSome user hnode)
            unfold Node.redirected at hlive
            split at hlive
            · rename_i i hindex
              have hgetitem := run_getitem (husers user huser).1 (husers user huser).2 hindex
                htuple ((hruns.solves user hnode).symm.trans hw)
              rw [hget i (by simpa using hlive)] at hgetitem
              simp [redirection, hmem, hw, Option.some.inj hgetitem]
            · cases hlive
          · have hne : a ≠ n := by
              rintro rfl
              exact huse ha
            simp [redirection, hmem, Function.update_of_ne hne]
        have hvalue' : run_node torch gm inputs
            ((retarget n target m).replace (redirection names n))
            (Function.update env n (some v)) = Function.update env n (some v) m.name := by
          rw [run_node_replace, run_node_local torch gm inputs (retarget n target m) _ env
            (by simpa using hargs)]
          by_cases hname : m.name = n
          · rw [(hrun m hm hname).2, hname, Function.update_self]
          · rw [retarget_ne hname, Function.update_of_ne hname]
            exact (hruns.solves m hm).symm
        rw [hkept huse]
        refine ⟨fun k hk => ?_, fun k hk => ?_⟩
        · obtain rfl := List.mem_singleton.mp hk
          rw [hvalue']
          simp
        · obtain rfl := List.mem_singleton.mp hk
          rw [replace_name, retarget_name]
          by_cases hname : m.name = n
          · simp [hname]
          · rw [Function.update_of_ne hname]
            exact hruns.isSome m hm
    · refine Function.update_of_ne ?_ _ _
      rintro hname
      rw [(hrun m hm hname).1] at houtput
      cases houtput

theorem Node.Calls.is_output {m : Node F T} {f : Function F} (h : m.Calls f) :
    m.is_output = false := by
  obtain ⟨args, kwargs, hop⟩ | ⟨target, args, kwargs, hop, _⟩ := h
  · simp [Node.is_output, hop]
  · simp [Node.is_output, hop]

theorem replace_topk_follows (hsorted : SortedFrom [] g) {node : Node F T} (hnode : node ∈ g)
    (hname : node.name = n) (hcalls : node.Calls .topk) (hrewirable : Rewirable g n)
    (h : _replace_multi_output_op g n topk_variants = some g') : Follows torch gm g g' := by
  have hunique : ∀ {m : Node F T}, m ∈ g → m.name = n → m = node :=
    fun hm heq => hsorted.eq_of_label hm hnode (heq.trans hname.symm)
  have hretarget : ∀ target, retarget n target node =
      { node with op := node.op.set_target target } := fun target => if_pos hname
  have htopk : ∀ inputs env, Runs torch gm inputs g env → ∃ values indices,
      env n = some (.tuple [values, indices]) ∧
        run_node torch gm inputs (retarget n .composite_topk node) env =
          some (.tuple [values, indices]) ∧
        run_node torch gm inputs (retarget n .composite_topk_values node) env = some values ∧
        run_node torch gm inputs (retarget n .composite_topk_indices node) env =
          some indices := by
    intro inputs env hruns
    obtain ⟨v, hv⟩ := Option.isSome_iff_exists.mp (hruns.isSome node hnode)
    obtain ⟨values, indices, rfl, hboth, hvalues, hindices⟩ :=
      run_topk_node hcalls ((hruns.solves node hnode).symm.trans hv)
    refine ⟨values, indices, hname ▸ hv, ?_, ?_, ?_⟩
    · rw [hretarget]
      exact hboth _ rfl
    · rw [hretarget]
      exact hvalues _ rfl
    · rw [hretarget]
      exact hindices _ rfl
  unfold _replace_multi_output_op at h
  obtain ⟨used, hused, h⟩ := Option.bind_eq_some_iff.mp h
  obtain ⟨target, htarget, h⟩ := Option.bind_eq_some_iff.mp h
  dsimp only at h
  split_ifs at h with hcard
  · obtain ⟨hone, husers⟩ := hrewirable used hused hcard
    obtain ⟨g₂, hredirect, herase⟩ := Option.bind_eq_some_iff.mp h
    obtain ⟨rfl, hdead⟩ :=
      rewire_eq hsorted (fun user huser => (husers user huser).1) hredirect herase
    refine rewired_follows hsorted rfl husers hdead fun inputs env hruns => ?_
    obtain ⟨values, indices, htuple, -, hvalues, hindices⟩ := htopk inputs env hruns
    rcases hone with rfl | rfl
    · obtain rfl : Function.composite_topk_values = target := Option.some.inj htarget
      refine ⟨_, values, htuple, fun i hi => ?_, fun m hm heq => ?_⟩
      · obtain rfl := Finset.mem_singleton.mp hi
        rfl
      · rw [hunique hm heq]
        exact ⟨hcalls.is_output, hvalues⟩
    · obtain rfl : Function.composite_topk_indices = target := Option.some.inj htarget
      refine ⟨_, indices, htuple, fun i hi => ?_, fun m hm heq => ?_⟩
      · obtain rfl := Finset.mem_singleton.mp hi
        rfl
      · rw [hunique hm heq]
        exact ⟨hcalls.is_output, hindices⟩
  · obtain rfl := Option.some.inj h
    obtain rfl := Option.some.inj ((variant_of_card hcard).symm.trans htarget)
    refine set_target_follows hsorted fun inputs env hruns m hm heq => ?_
    obtain ⟨values, indices, htuple, hboth, -, -⟩ := htopk inputs env hruns
    rw [hunique hm heq, hboth, htuple]

end Topk

end TTXla.TTTorch.CompositeOps

import TTXla.TTTorch.CompositeOps.LayerNorms

-- The whole pass: what the graph gives stays, as long as the outputs that are used are read by
-- their own indices.
namespace TTXla.TTTorch.CompositeOps

open TTXla.Dataflow

variable {F M T : Type} {torch : Torch F M T} {gm : GraphModule M T} {g g' : Graph F T} {n : Nat}

section Nodes

theorem find_node_some {node : Node F T} (h : find_node g n = some node) :
    node ∈ g ∧ node.name = n :=
  ⟨List.mem_of_find?_eq_some h, by simpa using List.find?_some h⟩

theorem replacements_variants {f : Function F} {variants : Variants F}
    (h : replacements f = some (.variants variants)) : f = .topk ∧ variants = topk_variants := by
  cases f with
  | topk =>
      obtain rfl := Replacement.variants.inj (Option.some.inj h)
      exact ⟨rfl, rfl⟩
  | _ => cases h

theorem replace_function_follows (hsorted : SortedFrom [] g) {node : Node F T} (hnode : node ∈ g)
    (hname : node.name = n) {f : Function F} (hcalls : node.Calls f)
    (hrewirable : node.Calls .topk → Rewirable g n) (h : replace_function g n f = some g') :
    Follows torch gm g g' := by
  unfold replace_function at h
  split at h
  · rename_i f' hf
    obtain rfl := Option.some.inj h
    refine set_target_follows hsorted fun inputs env hruns m hm heq => ?_
    obtain rfl := hsorted.eq_of_label hm hnode (heq.trans hname.symm)
    obtain ⟨v, hv⟩ := Option.isSome_iff_exists.mp (hruns.isSome m hm)
    have hrun := (hruns.solves m hm).symm.trans hv
    rw [run_node_of_calls torch gm inputs hcalls] at hrun
    obtain ⟨x, hx, hcall⟩ := Option.bind_eq_some_iff.mp hrun
    rw [retarget, if_pos heq, run_node_set_target torch gm inputs hcalls, hx, Option.bind_some,
      call_replacement hf hcall, ← heq, hv]
  · rename_i variants hf
    obtain ⟨rfl, rfl⟩ := replacements_variants hf
    exact replace_topk_follows hsorted hnode hname hcalls (hrewirable hcalls) h
  · obtain rfl := Option.some.inj h
    exact .refl hsorted

-- One step of the pass.
theorem handle_node_follows (hsorted : SortedFrom [] g)
    (hrewirable : (∃ node ∈ g, node.name = n ∧ node.Calls .topk) → Rewirable g n)
    (h : handle_node g n gm = some g') : Follows torch gm g g' := by
  unfold handle_node at h
  split at h
  · obtain rfl := Option.some.inj h
    exact .refl hsorted
  · rename_i node hfind
    obtain ⟨hnode, hname⟩ := find_node_some hfind
    have htopk : node.Calls .topk → Rewirable g n := fun hcalls =>
      hrewirable ⟨node, hnode, hname, hcalls⟩
    split at h
    · rename_i target args kwargs hop
      exact replace_function_follows hsorted hnode hname (Or.inl ⟨args, kwargs, hop⟩) htopk h
    · rename_i target args kwargs hop
      obtain ⟨module, hmodule, h⟩ := Option.bind_eq_some_iff.mp h
      cases module with
      | LayerNorm m => exact replace_layer_norm_follows hsorted hnode hname hop hmodule h
      | other m =>
          obtain rfl := Option.some.inj h
          exact .refl hsorted
    · rename_i target args kwargs hop
      split at h
      · rename_i f hmethod
        exact replace_function_follows hsorted hnode hname
          (Or.inr ⟨target, args, kwargs, hop, hmethod⟩) htopk h
      · obtain rfl := Option.some.inj h
        exact .refl hsorted
    · obtain rfl := Option.some.inj h
      exact .refl hsorted

end Nodes

section Pass

-- Each call of `topk` is rewirable when the pass gets to it.
def Rewires (gm : GraphModule M T) : List Nat → Graph F T → Prop
  | [], _ => True
  | n :: names, g =>
      ((∃ node ∈ g, node.name = n ∧ node.Calls .topk) → Rewirable g n) ∧
        ∀ g', handle_node g n gm = some g' → Rewires gm names g'

theorem handle_nodes_follow (hsorted : SortedFrom [] g) {names : List Nat}
    (hrewires : Rewires gm names g)
    (h : names.foldlM (fun g n => handle_node g n gm) g = some g') : Follows torch gm g g' := by
  induction names generalizing g with
  | nil =>
      obtain rfl := Option.some.inj h
      exact .refl hsorted
  | cons n names ih =>
      obtain ⟨g₁, hfirst, hrest⟩ := Option.bind_eq_some_iff.mp h
      have hfollows : Follows torch gm g g₁ :=
        handle_node_follows hsorted hrewires.1 hfirst
      exact hfollows.trans (ih hfollows.sorted (hrewires.2 g₁ hfirst) hrest)

-- A graph that gives both outputs at once.
def tuple_graph : Graph Empty Unit :=
  [⟨0, .placeholder "x"⟩, ⟨1, .call_function .topk [.node 0, .value (.int 2)] []⟩,
    ⟨2, .output (.node 1)⟩]

def tuple_graph' : Graph Empty Unit :=
  [⟨0, .placeholder "x"⟩, ⟨1, .call_function .composite_topk [.node 0, .value (.int 2)] []⟩,
    ⟨2, .output (.node 1)⟩]

def without_modules : GraphModule Empty Unit := ⟨fun _ => none, fun _ => none, nofun, nofun⟩

end Pass

end TTXla.TTTorch.CompositeOps

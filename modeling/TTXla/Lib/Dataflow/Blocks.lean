import TTXla.Lib.Dataflow

-- Each node of a list becomes a block of nodes, and what used the node uses the block.
namespace TTXla.Dataflow

open DataNode

variable {N V : Type} [DataNode N] {σ : Nat → Nat} {f : N → List N} {seen seen' : List Nat}
  {ns ms : List N}

theorem sortedFrom_append : SortedFrom seen (ns ++ ms) ↔
    SortedFrom seen ns ∧ SortedFrom ((ns.map label).reverse ++ seen) ms := by
  induction ns generalizing seen with
  | nil => simp [SortedFrom]
  | cons n ns ih => simp [SortedFrom, ih, and_assoc]

theorem SortedFrom.nodup (h : SortedFrom seen ns) : (ns.map label).Nodup := by
  induction ns generalizing seen with
  | nil => exact List.nodup_nil
  | cons n ns ih =>
      obtain ⟨_, _, hrest⟩ := h
      rw [List.map_cons, List.nodup_cons]
      refine ⟨fun hmem => ?_, ih hrest⟩
      obtain ⟨m, hm, hlabel⟩ := List.mem_map.mp hmem
      exact hrest.label_notMem hm (hlabel ▸ List.mem_cons_self)

-- A node uses what comes before it.
theorem SortedFrom.label_notMem_args (h : SortedFrom seen ns) {n : N} (hn : n ∈ ns) :
    label n ∉ args n := by
  induction ns generalizing seen with
  | nil => exact absurd hn List.not_mem_nil
  | cons m ns ih =>
      obtain ⟨hargs, hnew, hrest⟩ := h
      obtain rfl | hn := List.mem_cons.mp hn
      · exact fun hmem => hnew (hargs _ hmem)
      · exact ih hrest hn

-- Nodes that use nothing, and one that may use them.
theorem sortedFrom_of_closed {n : N} (hclosed : ∀ k ∈ ns, args k = [])
    (hargs : ∀ a ∈ args n, a ∈ seen ∨ a ∈ ns.map label)
    (hnodup : ((ns ++ [n]).map label).Nodup) (hnew : ∀ k ∈ ns ++ [n], label k ∉ seen) :
    SortedFrom seen (ns ++ [n]) := by
  induction ns generalizing seen with
  | nil =>
      refine ⟨fun a ha => ?_, hnew n (by simp), trivial⟩
      exact (hargs a ha).resolve_right List.not_mem_nil
  | cons k ns ih =>
      rw [List.cons_append, List.map_cons, List.nodup_cons] at hnodup
      refine ⟨fun a ha => ?_, hnew k List.mem_cons_self, ?_⟩
      · rw [hclosed k List.mem_cons_self] at ha
        exact absurd ha List.not_mem_nil
      · refine ih (fun m hm => hclosed m (List.mem_cons_of_mem _ hm)) (fun a ha => ?_) hnodup.2
          fun m hm hmem => ?_
        · rcases hargs a ha with hseen | hlabel
          · exact Or.inl (List.mem_cons_of_mem _ hseen)
          · rcases List.mem_cons.mp hlabel with rfl | hlabel
            · exact Or.inl List.mem_cons_self
            · exact Or.inr hlabel
        · rcases List.mem_cons.mp hmem with heq | hmem
          · exact hnodup.1 (heq ▸ List.mem_map_of_mem hm)
          · exact hnew m (List.mem_cons_of_mem _ hm) hmem

-- The block of `n` uses what `n` uses, and something in it or before it stands for `n`.
def Block (σ : Nat → Nat) (n : N) (block : List N) : Prop :=
  ∀ seen, (∀ a ∈ args n, σ a ∈ seen) → (block.map label).Nodup →
    (∀ k ∈ block, label k ∉ seen) →
    SortedFrom seen block ∧ (σ (label n) ∈ seen ∨ σ (label n) ∈ block.map label)

theorem Block.singleton {n k : N} (hargs : ∀ a ∈ args k, ∃ b ∈ args n, σ b = a)
    (hlabel : σ (label n) = label k) : Block σ n [k] := by
  intro seen hseen _ hnew
  refine ⟨⟨fun a ha => ?_, hnew k List.mem_cons_self, trivial⟩, Or.inr (by simp [hlabel])⟩
  obtain ⟨b, hb, rfl⟩ := hargs a ha
  exact hseen b hb

theorem Block.removed {n : N} {a : Nat} (ha : a ∈ args n) (hσ : σ (label n) = σ a) :
    Block σ n [] :=
  fun _ hseen _ _ => ⟨trivial, Or.inl (hσ ▸ hseen a ha)⟩

theorem SortedFrom.flatMap (h : SortedFrom seen ns) (hσ : ∀ a ∈ seen, σ a ∈ seen')
    (hf : ∀ n ∈ ns, Block σ n (f n)) (hnodup : ((ns.flatMap f).map label).Nodup)
    (hnew : ∀ k ∈ ns.flatMap f, label k ∉ seen') : SortedFrom seen' (ns.flatMap f) := by
  induction ns generalizing seen seen' with
  | nil => trivial
  | cons n ns ih =>
      obtain ⟨hargs, _, hrest⟩ := h
      rw [List.flatMap_cons, List.map_append, List.nodup_append] at hnodup
      obtain ⟨hblock, htail, hdisjoint⟩ := hnodup
      simp only [List.flatMap_cons, List.mem_append] at hnew
      obtain ⟨hsorted, hlabel⟩ := hf n List.mem_cons_self seen'
        (fun a ha => hσ a (hargs a ha)) hblock fun k hk => hnew k (Or.inl hk)
      rw [List.flatMap_cons, sortedFrom_append]
      refine ⟨hsorted, ih hrest (fun a ha => ?_) (fun m hm => hf m (List.mem_cons_of_mem _ hm))
        htail fun k hk hmem => ?_⟩
      · simp only [List.mem_append, List.mem_reverse]
        obtain rfl | ha := List.mem_cons.mp ha
        · exact hlabel.symm
        · exact Or.inr (hσ a ha)
      · simp only [List.mem_append, List.mem_reverse] at hmem
        rcases hmem with hmem | hmem
        · exact hdisjoint _ hmem _ (List.mem_map_of_mem hk) rfl
        · exact hnew k (Or.inr hk) hmem

section Evaluation

variable {value : N → (Nat → V) → V} {env : Nat → V}

theorem solves_flatMap : Solves value (ns.flatMap f) env ↔ ∀ n ∈ ns, Solves value (f n) env := by
  constructor
  · exact fun h n hn k hk => h k (List.mem_flatMap.mpr ⟨n, hn, hk⟩)
  · intro h k hk
    obtain ⟨n, hn, hk⟩ := List.mem_flatMap.mp hk
    exact h n hn k hk

theorem Solves.eval_eq (hlocal : Local value) (hsorted : SortedFrom [] ns)
    (h : Solves value ns env) (start : Nat → V) {n : N} (hn : n ∈ ns) :
    eval value ns start (label n) = env (label n) :=
  (eval_solves hlocal hsorted start).unique hlocal hsorted h
    (fun _ hi => absurd hi List.not_mem_nil) n hn

end Evaluation

end TTXla.Dataflow

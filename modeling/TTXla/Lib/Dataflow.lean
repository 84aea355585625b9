import Mathlib.Data.List.Basic
import Mathlib.Logic.Function.Basic

-- Lists of nodes in which each node uses earlier ones: what the nodes evaluate to, and the
-- removal of nodes that nothing uses.
namespace TTXla.Dataflow

class DataNode (N : Type) where
  label : N → Nat
  args : N → List Nat

open DataNode

variable {N V : Type} [DataNode N]

-- The nodes have new labels, and use the labels in `seen` or those of earlier nodes.
def SortedFrom : List Nat → List N → Prop
  | _, [] => True
  | seen, n :: ns =>
      (∀ a ∈ args n, a ∈ seen) ∧ label n ∉ seen ∧ SortedFrom (label n :: seen) ns

instance SortedFrom.decidable : (seen : List Nat) → (ns : List N) → Decidable (SortedFrom seen ns)
  | _, [] => inferInstanceAs (Decidable True)
  | seen, n :: ns =>
      have : Decidable (SortedFrom (label n :: seen) ns) := SortedFrom.decidable _ ns
      inferInstanceAs (Decidable (_ ∧ _ ∧ _))

section Sorted

variable {seen seen' : List Nat} {ns : List N}

theorem SortedFrom.congr (h : SortedFrom seen ns) (hseen : ∀ a, a ∈ seen ↔ a ∈ seen') :
    SortedFrom seen' ns := by
  induction ns generalizing seen seen' with
  | nil => trivial
  | cons n ns ih =>
      obtain ⟨hargs, hnew, hrest⟩ := h
      refine ⟨fun a ha => (hseen a).mp (hargs a ha), fun hmem => hnew ((hseen _).mpr hmem), ?_⟩
      refine ih hrest fun a => ?_
      rw [List.mem_cons, List.mem_cons, hseen a]

theorem SortedFrom.label_notMem (h : SortedFrom seen ns) {n : N} (hn : n ∈ ns) :
    label n ∉ seen := by
  induction ns generalizing seen with
  | nil => exact absurd hn List.not_mem_nil
  | cons m ns ih =>
      obtain ⟨_, hnew, hrest⟩ := h
      obtain rfl | hn := List.mem_cons.mp hn
      · exact hnew
      · exact fun hseen => ih hrest hn (List.mem_cons_of_mem _ hseen)

theorem SortedFrom.eq_of_label (h : SortedFrom seen ns) {n m : N} (hn : n ∈ ns) (hm : m ∈ ns)
    (hlabel : label n = label m) : n = m := by
  induction ns generalizing seen with
  | nil => exact absurd hn List.not_mem_nil
  | cons k ns ih =>
      obtain ⟨_, _, hrest⟩ := h
      obtain rfl | hn' := List.mem_cons.mp hn
      · obtain rfl | hm' := List.mem_cons.mp hm
        · rfl
        · exact absurd (hlabel ▸ List.mem_cons_self) (hrest.label_notMem hm')
      · obtain rfl | hm' := List.mem_cons.mp hm
        · exact absurd (hlabel ▸ List.mem_cons_self) (hrest.label_notMem hn')
        · exact ih hrest hn' hm'

theorem SortedFrom.args_mem (h : SortedFrom seen ns) {n : N} (hn : n ∈ ns) {a : Nat}
    (ha : a ∈ args n) : a ∈ seen ∨ ∃ m ∈ ns, label m = a := by
  induction ns generalizing seen with
  | nil => exact absurd hn List.not_mem_nil
  | cons k ns ih =>
      obtain ⟨hargs, _, hrest⟩ := h
      obtain rfl | hn := List.mem_cons.mp hn
      · exact .inl (hargs a ha)
      · obtain hseen | ⟨m, hm, rfl⟩ := ih hrest hn
        · obtain rfl | hseen := List.mem_cons.mp hseen
          · exact .inr ⟨k, List.mem_cons_self, rfl⟩
          · exact .inl hseen
        · exact .inr ⟨m, List.mem_cons_of_mem _ hm, rfl⟩

-- What holds of a label once it holds of all that its node uses holds of every label.
theorem SortedFrom.induction {P : Nat → Prop} (h : SortedFrom seen ns) (hseen : ∀ i ∈ seen, P i)
    (hstep : ∀ n ∈ ns, (∀ a ∈ args n, P a) → P (label n)) : ∀ n ∈ ns, P (label n) := by
  induction ns generalizing seen with
  | nil => exact fun n hn => absurd hn List.not_mem_nil
  | cons n ns ih =>
      obtain ⟨hargs, _, hrest⟩ := h
      have hhead : P (label n) := hstep n List.mem_cons_self fun a ha => hseen a (hargs a ha)
      have htail := ih hrest (List.forall_mem_cons.mpr ⟨hhead, hseen⟩)
        fun m hm => hstep m (List.mem_cons_of_mem _ hm)
      exact List.forall_mem_cons.mpr ⟨hhead, htail⟩

-- A label that no node uses need not be there.
theorem SortedFrom.unused {i : Nat} (h : SortedFrom (i :: seen) ns)
    (hunused : ∀ m ∈ ns, i ∉ args m) : SortedFrom seen ns := by
  induction ns generalizing seen with
  | nil => trivial
  | cons m ns ih =>
      obtain ⟨hargs, hnew, hrest⟩ := h
      refine ⟨fun a ha => ?_, fun hseen => hnew (List.mem_cons_of_mem _ hseen), ?_⟩
      · obtain rfl | hseen := List.mem_cons.mp (hargs a ha)
        · exact absurd ha (hunused m List.mem_cons_self)
        · exact hseen
      · refine ih (hrest.congr fun a => ?_) fun m' hm' => hunused m' (List.mem_cons_of_mem _ hm')
        simp only [List.mem_cons]
        tauto

end Sorted

section Evaluation

-- A node evaluates to what it makes of the values at its arguments.
def eval (value : N → (Nat → V) → V) : List N → (Nat → V) → Nat → V
  | [], env => env
  | n :: ns, env => eval value ns (Function.update env (label n) (value n env))

def Local (value : N → (Nat → V) → V) : Prop :=
  ∀ n env env', (∀ a ∈ args n, env a = env' a) → value n env = value n env'

def Solves (value : N → (Nat → V) → V) (ns : List N) (env : Nat → V) : Prop :=
  ∀ n ∈ ns, env (label n) = value n env

variable {value : N → (Nat → V) → V} {seen : List Nat} {ns : List N}

theorem eval_of_seen (h : SortedFrom seen ns) (env : Nat → V) {i : Nat} (hi : i ∈ seen) :
    eval value ns env i = env i := by
  induction ns generalizing seen env with
  | nil => rfl
  | cons n ns ih =>
      obtain ⟨_, hnew, hrest⟩ := h
      rw [eval, ih hrest _ (List.mem_cons_of_mem _ hi), Function.update_of_ne]
      rintro rfl
      exact hnew hi

theorem eval_solves (hlocal : Local value) (h : SortedFrom seen ns) (env : Nat → V) :
    Solves value ns (eval value ns env) := by
  induction ns generalizing seen env with
  | nil => exact fun n hn => absurd hn List.not_mem_nil
  | cons n ns ih =>
      obtain ⟨hargs, hnew, hrest⟩ := h
      intro m hm
      obtain rfl | hm := List.mem_cons.mp hm
      · rw [eval, eval_of_seen hrest _ List.mem_cons_self, Function.update_self]
        refine hlocal m _ _ fun a ha => ?_
        rw [eval_of_seen hrest _ (List.mem_cons_of_mem _ (hargs a ha)), Function.update_of_ne]
        rintro rfl
        exact hnew (hargs _ ha)
      · exact ih hrest _ m hm

theorem Solves.unique (hlocal : Local value) (h : SortedFrom seen ns) {env env' : Nat → V}
    (henv : Solves value ns env) (henv' : Solves value ns env')
    (hseen : ∀ i ∈ seen, env i = env' i) : ∀ n ∈ ns, env (label n) = env' (label n) := by
  induction ns generalizing seen with
  | nil => exact fun n hn => absurd hn List.not_mem_nil
  | cons n ns ih =>
      obtain ⟨hargs, hnew, hrest⟩ := h
      have hhead : env (label n) = env' (label n) := by
        rw [henv n List.mem_cons_self, henv' n List.mem_cons_self]
        exact hlocal n _ _ fun a ha => hseen a (hargs a ha)
      intro m hm
      obtain rfl | hm := List.mem_cons.mp hm
      · exact hhead
      · refine ih hrest (fun k hk => henv k (List.mem_cons_of_mem _ hk))
          (fun k hk => henv' k (List.mem_cons_of_mem _ hk)) (fun i hi => ?_) m hm
        obtain rfl | hi := List.mem_cons.mp hi
        · exact hhead
        · exact hseen i hi

end Evaluation

-- The nodes that use a changed one, or that use one that does.
inductive Downstream (changed : N → Prop) (ns : List N) : N → Prop where
  | changed {n : N} (hn : n ∈ ns) (h : changed n) : Downstream changed ns n
  | uses {n m : N} (hn : n ∈ ns) (hm : Downstream changed ns m) (h : label m ∈ args n) :
      Downstream changed ns n

section Elimination

variable (kept : N → Bool)

-- From the last node to the first, a node that no remaining node uses is removed.
def eliminate : List N → List N
  | [] => []
  | n :: ns =>
      if kept n = true ∨ ∃ m ∈ eliminate ns, label n ∈ args m then n :: eliminate ns
      else eliminate ns

inductive Live (ns : List N) : N → Prop where
  | kept {n : N} (hn : n ∈ ns) (h : kept n = true) : Live ns n
  | used {n m : N} (hn : n ∈ ns) (hm : Live ns m) (h : label n ∈ args m) : Live ns n

variable {kept} {seen : List Nat} {ns : List N}

theorem Live.mem {n : N} (h : Live kept ns n) : n ∈ ns := by
  cases h with
  | kept hn _ => exact hn
  | used hn _ _ => exact hn

theorem mem_of_mem_eliminate {n : N} (h : n ∈ eliminate kept ns) : n ∈ ns := by
  induction ns with
  | nil => exact h
  | cons m ns ih =>
      rw [eliminate] at h
      split_ifs at h
      · obtain rfl | h := List.mem_cons.mp h
        · exact List.mem_cons_self
        · exact List.mem_cons_of_mem _ (ih h)
      · exact List.mem_cons_of_mem _ (ih h)

theorem eliminate_sorted (h : SortedFrom seen ns) : SortedFrom seen (eliminate kept ns) := by
  induction ns generalizing seen with
  | nil => trivial
  | cons n ns ih =>
      obtain ⟨hargs, hnew, hrest⟩ := h
      rw [eliminate]
      split_ifs with hkeep
      · exact ⟨hargs, hnew, ih hrest⟩
      · rw [not_or, not_exists] at hkeep
        exact (ih hrest).unused fun m hm ha => hkeep.2 m ⟨hm, ha⟩

-- What a live node uses is live, and what is live stays.
theorem mem_eliminate_iff (h : SortedFrom seen ns) (n : N) :
    n ∈ eliminate kept ns ↔ Live kept ns n := by
  constructor
  · intro hn
    induction ns generalizing seen n with
    | nil => exact absurd hn List.not_mem_nil
    | cons k ns ih =>
        obtain ⟨_, _, hrest⟩ := h
        have hcons : ∀ {m : N}, Live kept ns m → Live kept (k :: ns) m := by
          intro m hm
          induction hm with
          | kept hm hkept => exact .kept (List.mem_cons_of_mem _ hm) hkept
          | used hm _ huse ih => exact .used (List.mem_cons_of_mem _ hm) ih huse
        rw [eliminate] at hn
        split_ifs at hn with hkeep
        · obtain rfl | hn := List.mem_cons.mp hn
          · obtain hkept | ⟨m, hm, huse⟩ := hkeep
            · exact .kept List.mem_cons_self hkept
            · exact .used List.mem_cons_self (hcons (ih hrest m hm)) huse
          · exact hcons (ih hrest n hn)
        · exact hcons (ih hrest n hn)
  · intro hlive
    have hstep : ∀ {ns : List N} {seen : List Nat}, SortedFrom seen ns → ∀ n ∈ ns,
        (kept n = true ∨ ∃ m ∈ eliminate kept ns, label n ∈ args m) → n ∈ eliminate kept ns := by
      intro ns
      induction ns with
      | nil => exact fun _ n hn => absurd hn List.not_mem_nil
      | cons k ns ih =>
          rintro seen ⟨hargs, hnew, hrest⟩ n hn hkeep
          rw [eliminate]
          obtain rfl | hn' := List.mem_cons.mp hn
          · rw [if_pos]
            · exact List.mem_cons_self
            · refine hkeep.imp_right ?_
              rintro ⟨m, hm, huse⟩
              have hm' := mem_of_mem_eliminate hm
              rw [eliminate] at hm
              split_ifs at hm
              · obtain rfl | hm := List.mem_cons.mp hm
                · exact absurd (hargs _ huse) hnew
                · exact ⟨m, hm, huse⟩
              · exact ⟨m, hm, huse⟩
          · have hrec : n ∈ eliminate kept ns := by
              refine ih hrest n hn' (hkeep.imp_right ?_)
              rintro ⟨m, hm, huse⟩
              rw [eliminate] at hm
              split_ifs at hm
              · obtain rfl | hm := List.mem_cons.mp hm
                · -- the first node uses no later one
                  exact absurd (List.mem_cons_of_mem _ (hargs _ huse)) (hrest.label_notMem hn')
                · exact ⟨m, hm, huse⟩
              · exact ⟨m, hm, huse⟩
            split_ifs
            · exact List.mem_cons_of_mem _ hrec
            · exact hrec
    induction hlive with
    | kept hn hkept => exact hstep h _ hn (.inl hkept)
    | used hn _ huse ih => exact hstep h _ hn (.inr ⟨_, ih, huse⟩)

theorem Live.eliminate (h : SortedFrom seen ns) {n : N} (hlive : Live kept ns n) :
    Live kept (eliminate kept ns) n := by
  induction hlive with
  | kept hn hkept => exact .kept ((mem_eliminate_iff h _).mpr (.kept hn hkept)) hkept
  | used hn hm huse ih => exact .used ((mem_eliminate_iff h _).mpr (.used hn hm huse)) ih huse

end Elimination

section Map

variable {f : N → N} {kept : N → Bool} {seen : List Nat} {ns : List N}

theorem SortedFrom.map (hlabel : ∀ n, label (f n) = label n) (hargs : ∀ n, args (f n) = args n)
    (h : SortedFrom seen ns) : SortedFrom seen (ns.map f) := by
  induction ns generalizing seen with
  | nil => trivial
  | cons n ns ih =>
      obtain ⟨hmem, hnew, hrest⟩ := h
      refine ⟨by rwa [hargs], by rwa [hlabel], ?_⟩
      rw [hlabel]
      exact ih hrest

theorem Live.map (hlabel : ∀ n, label (f n) = label n) (hargs : ∀ n, args (f n) = args n)
    (hkept : ∀ n, kept (f n) = kept n) {n : N} (h : Live kept ns n) :
    Live kept (ns.map f) (f n) := by
  induction h with
  | kept hn h => exact .kept (List.mem_map_of_mem hn) ((hkept _).trans h)
  | used hn _ huse ih =>
      refine .used (List.mem_map_of_mem hn) ih ?_
      rwa [hlabel, hargs]

end Map

end TTXla.Dataflow

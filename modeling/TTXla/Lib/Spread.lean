import Mathlib.Data.List.Basic
import Mathlib.Logic.Relation

-- Recursive visits: an action at a value, then the values that come next, in their order.
namespace TTXla.Spread

open Relation

variable {α β : Type} (next : α → Option (List α)) (act : α → β → β)

-- A value without its list of next values ends the visit, as does a visit that goes too deep.
def visit : Nat → α → β → Option β
  | 0, _, _ => none
  | fuel + 1, a, s => do
      let bs ← next a
      bs.foldlM (fun s b => visit fuel b s) (act a s)

def Step (a b : α) : Prop := ∃ bs, next a = some bs ∧ b ∈ bs

abbrev Reaches : α → α → Prop := ReflTransGen (Step next)

-- The values from which no visit goes on for ever or meets a value without next values.
inductive Settled : α → Prop where
  | intro (a : α) (bs : List α) (h : next a = some bs) (hbs : ∀ b ∈ bs, Settled b) : Settled a

-- The visit performs the actions of the values of a list, one after the other.
def Performs (order : List α) (run : β → Option β) : Prop :=
  ∀ s, run s = some (order.foldl (fun s b => act b s) s)

variable {next act}

theorem Performs.foldlM_cons {a : α} {bs order rest : List α} {f : β → α → Option β}
    (ha : Performs act order fun s => f s a) (hbs : Performs act rest fun s => bs.foldlM f s) :
    Performs act (order ++ rest) fun s => (a :: bs).foldlM f s := by
  intro s
  have hstep := ha s
  simp only [List.foldlM_cons, List.foldl_append] at hstep ⊢
  rw [hstep]
  exact hbs _

theorem performs_all {bs : List α}
    (h : ∀ b ∈ bs, ∃ order, (∀ c, c ∈ order ↔ Reaches next b c) ∧
      ∃ n, ∀ fuel, n ≤ fuel → Performs act order (visit next act fuel b)) :
    ∃ order, (∀ c, c ∈ order ↔ ∃ b ∈ bs, Reaches next b c) ∧ ∃ n, ∀ fuel, n ≤ fuel →
      Performs act order fun s => bs.foldlM (fun s b => visit next act fuel b s) s := by
  induction bs with
  | nil =>
      refine ⟨[], fun c => ?_, 0, fun _ _ s => rfl⟩
      simp only [List.not_mem_nil, false_and, exists_false]
  | cons b bs ih =>
      obtain ⟨order, horder, n, hn⟩ := h b List.mem_cons_self
      obtain ⟨rest, hrest, m, hm⟩ := ih fun c hc => h c (List.mem_cons_of_mem _ hc)
      refine ⟨order ++ rest, fun c => ?_, max n m, fun fuel hfuel => ?_⟩
      · rw [List.mem_append, horder, hrest, List.exists_mem_cons_iff]
      · exact (hn fuel (Nat.le_trans (Nat.le_max_left n m) hfuel)).foldlM_cons
          (hm fuel (Nat.le_trans (Nat.le_max_right n m) hfuel))

theorem reaches_iff {a c : α} {bs : List α} (h : next a = some bs) :
    Reaches next a c ↔ c = a ∨ ∃ b ∈ bs, Reaches next b c := by
  constructor
  · intro hreach
    obtain rfl | ⟨b, ⟨bs', hbs, hb⟩, hreach⟩ := ReflTransGen.cases_head hreach
    · exact .inl rfl
    · rw [h] at hbs
      cases hbs
      exact .inr ⟨b, hb, hreach⟩
  · rintro (rfl | ⟨b, hb, hreach⟩)
    · exact .refl
    · exact .head ⟨bs, h, hb⟩ hreach

variable (act) in
-- A visit from a settled value is over at some depth, and acts on just the values it reaches.
theorem Settled.performs {a : α} (h : Settled next a) :
    ∃ order, (∀ c, c ∈ order ↔ Reaches next a c) ∧
      ∃ n, ∀ fuel, n ≤ fuel → Performs act order (visit next act fuel a) := by
  induction h with
  | intro a bs h _ ih =>
      obtain ⟨order, horder, n, hn⟩ := performs_all ih
      refine ⟨a :: order, fun c => ?_, n + 1, fun fuel hfuel s => ?_⟩
      · rw [List.mem_cons, horder, reaches_iff h]
      · obtain ⟨fuel, rfl⟩ := Nat.exists_eq_add_of_le' (Nat.le_trans (Nat.succ_pos n) hfuel)
        rw [visit, h]
        exact hn fuel (Nat.le_of_succ_le_succ hfuel) (act a s)

theorem exists_of_foldlM {f : β → α → Option β} {bs : List α} {s s' : β}
    (h : bs.foldlM f s = some s') : ∀ b ∈ bs, ∃ t t', f t b = some t' := by
  induction bs generalizing s with
  | nil => exact fun b hb => absurd hb List.not_mem_nil
  | cons a bs ih =>
      rw [List.foldlM_cons] at h
      obtain ⟨t, ht, h⟩ := Option.bind_eq_some_iff.mp h
      exact List.forall_mem_cons.mpr ⟨⟨s, t, ht⟩, ih h⟩

theorem settled_of_visit {fuel : Nat} {a : α} {s s' : β}
    (h : visit next act fuel a s = some s') : Settled next a := by
  induction fuel generalizing a s s' with
  | zero => cases h
  | succ fuel ih =>
      rw [visit] at h
      obtain ⟨bs, hbs, h⟩ := Option.bind_eq_some_iff.mp h
      refine .intro a bs hbs fun b hb => ?_
      obtain ⟨t, t', ht⟩ := exists_of_foldlM h b hb
      exact ih ht

end TTXla.Spread

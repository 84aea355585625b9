import Mathlib.Data.List.Basic

-- Lists traversed in the option monad.
namespace TTXla.Options

variable {α β : Type*}

theorem getElem?_of_mapM {f : α → Option β} {l : List α} {r : List β} (h : l.mapM f = some r) :
    r.length = l.length ∧ ∀ i : Nat, r[i]? = (l[i]?).bind f := by
  induction l generalizing r with
  | nil => cases h; simp
  | cons a l ih =>
      rw [List.mapM_cons] at h
      obtain ⟨b, hb, h⟩ := Option.bind_eq_some_iff.mp h
      obtain ⟨r', hr, h⟩ := Option.bind_eq_some_iff.mp h
      cases h
      obtain ⟨i1, i2⟩ := ih hr
      refine ⟨by simp [i1], fun i => ?_⟩
      cases i with
      | zero => simp [hb]
      | succ i => simpa using i2 i

theorem mapM_congr {f g : α → Option β} {l : List α} (h : ∀ a ∈ l, f a = g a) :
    l.mapM f = l.mapM g := by
  induction l with
  | nil => rfl
  | cons a l ih =>
      rw [List.mapM_cons, List.mapM_cons, h a List.mem_cons_self,
        ih fun a' ha' => h a' (List.mem_cons_of_mem _ ha')]

theorem mapM_eq_some_map {f : α → Option β} {g : α → β} {l : List α}
    (h : ∀ a ∈ l, f a = some (g a)) : l.mapM f = some (l.map g) := by
  induction l with
  | nil => rfl
  | cons a l ih =>
      rw [List.mapM_cons, h a List.mem_cons_self,
        ih fun a' ha' => h a' (List.mem_cons_of_mem _ ha')]
      rfl

theorem mapM_isSome_of_forall {f : α → Option β} {l : List α} (h : ∀ a ∈ l, (f a).isSome) :
    ∃ r, l.mapM f = some r := by
  induction l with
  | nil => exact ⟨[], rfl⟩
  | cons a l ih =>
      obtain ⟨b, hb⟩ := Option.isSome_iff_exists.mp (h a List.mem_cons_self)
      obtain ⟨r, hr⟩ := ih fun a' ha' => h a' (List.mem_cons_of_mem _ ha')
      exact ⟨b :: r, by rw [List.mapM_cons, hb, hr]; rfl⟩

-- What every iteration preserves is preserved by the loop.
theorem foldlM_invariant {f : β → α → Option β} (inv : β → Prop)
    (hs : ∀ s a s', inv s → f s a = some s' → inv s') {l : List α} {s s' : β} (h0 : inv s)
    (h : l.foldlM f s = some s') : inv s' := by
  induction l generalizing s with
  | nil =>
      cases h
      exact h0
  | cons a l ih =>
      obtain ⟨mid, hmid, hrest⟩ := Option.bind_eq_some_iff.mp h
      exact ih (hs _ _ _ h0 hmid) hrest

theorem foldlM_flatMap {γ : Type*} {f : α → List β} {g : γ → β → Option γ} {l : List α}
    (s : γ) : (l.flatMap f).foldlM g s = l.foldlM (fun s a => (f a).foldlM g s) s := by
  induction l generalizing s with
  | nil => rfl
  | cons a l ih =>
      rw [List.flatMap_cons, List.foldlM_append, List.foldlM_cons]
      exact congrArg _ (funext ih)

theorem guard_eq_some {p : Prop} [Decidable p] {u : Unit} :
    (guard p : Option Unit) = some u ↔ p := by
  by_cases hp : p <;> simp [guard, hp]

end TTXla.Options

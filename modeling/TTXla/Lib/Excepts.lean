import Mathlib.Data.List.Forall2

-- Computations that may raise.
namespace TTXla.Excepts

variable {ε α β : Type*}

-- `assert`.
def ensure (p : Prop) [Decidable p] (e : ε) : Except ε Unit := if p then .ok () else .error e

theorem bind_eq_ok {ε α β : Type} {x : Except ε α} {f : α → Except ε β} {b : β} :
    x >>= f = .ok b ↔ ∃ a, x = .ok a ∧ f a = .ok b := by
  cases x with
  | error e => exact ⟨fun h => (nomatch h), fun ⟨a, h, _⟩ => (nomatch h)⟩
  | ok a => exact ⟨fun h => ⟨a, rfl, h⟩, fun ⟨a', h, hf⟩ => by cases h; exact hf⟩

theorem bind_eq_error {ε α β : Type} {x : Except ε α} {f : α → Except ε β} {e : ε} :
    x >>= f = .error e ↔ x = .error e ∨ ∃ a, x = .ok a ∧ f a = .error e := by
  cases x with
  | error e' =>
      refine ⟨fun h => Or.inl ?_, fun h => ?_⟩
      · cases h
        rfl
      · rcases h with h | ⟨a, h, -⟩
        · cases h
          rfl
        · cases h
  | ok a =>
      refine ⟨fun h => Or.inr ⟨a, rfl, h⟩, fun h => ?_⟩
      rcases h with h | ⟨a', h, hf⟩
      · cases h
      · cases h
        exact hf

theorem map_eq_ok {x : Except ε α} {f : α → β} {b : β} :
    x.map f = .ok b ↔ ∃ a, x = .ok a ∧ f a = b := by
  cases x <;> simp [Except.map]

theorem map_eq_error {x : Except ε α} {f : α → β} {e : ε} :
    x.map f = .error e ↔ x = .error e := by
  cases x <;> simp [Except.map]

theorem ensure_of {p : Prop} [Decidable p] {e : ε} (h : p) : ensure p e = .ok () := if_pos h

theorem ensure_eq_ok {p : Prop} [Decidable p] {e : ε} {u : Unit} :
    ensure p e = .ok u ↔ p := by
  by_cases hp : p <;> simp [ensure, hp]

theorem ensure_eq_error {p : Prop} [Decidable p] {e e' : ε} :
    ensure p e = .error e' ↔ ¬p ∧ e = e' := by
  by_cases hp : p <;> simp [ensure, hp]

-- `d[k]`, and the like.
def get (x : Option α) (e : ε) : Except ε α :=
  match x with
  | some a => .ok a
  | none => .error e

theorem get_eq_ok {x : Option α} {e : ε} {a : α} : get x e = .ok a ↔ x = some a := by
  cases x <;> simp [get]

theorem get_eq_error {x : Option α} {e e' : ε} : get x e = .error e' ↔ x = none ∧ e = e' := by
  cases x <;> simp [get]

theorem eq_ok_of_toOption {x : Except ε α} {a : α} (h : x.toOption = some a) : x = .ok a := by
  cases x with
  | error e => cases h
  | ok a' =>
      cases h
      rfl

-- When every result tells its argument, so does the list of results.
theorem map_of_mapM {ε α β : Type} {f : α → Except ε β} {g : β → α}
    (hfg : ∀ a b, f a = .ok b → g b = a) {l : List α} {r : List β} (h : l.mapM f = .ok r) :
    r.map g = l := by
  induction l generalizing r with
  | nil =>
      cases h
      rfl
  | cons a l ih =>
      rw [List.mapM_cons] at h
      obtain ⟨b, hb, h⟩ := bind_eq_ok.mp h
      obtain ⟨r', hr, h⟩ := bind_eq_ok.mp h
      cases h
      rw [List.map_cons, hfg a b hb, ih hr]

theorem mapM_eq_ok {ε α β : Type} {f : α → Except ε β} {l : List α} {r : List β} :
    l.mapM f = .ok r ↔ List.Forall₂ (fun a b => f a = .ok b) l r := by
  induction l generalizing r with
  | nil =>
      rw [List.mapM_nil, List.forall₂_nil_left_iff]
      exact ⟨fun h => by cases h; rfl, fun h => by subst h; rfl⟩
  | cons a l ih =>
      rw [List.mapM_cons, List.forall₂_cons_left_iff]
      constructor
      · intro h
        obtain ⟨b, hb, h⟩ := bind_eq_ok.mp h
        obtain ⟨r', hr, h⟩ := bind_eq_ok.mp h
        cases h
        exact ⟨b, r', hb, ih.mp hr, rfl⟩
      · intro ⟨b, r', hb, hr, heq⟩
        subst heq
        rw [hb, ih.mpr hr]
        rfl

-- A traversal whose elements can only fail in one way fails in that way.
theorem mapM_eq_error {ε α β : Type} {f : α → Except ε β} {e : ε} {l : List α}
    (hf : ∀ a ∈ l, f a = .error e ∨ ∃ b, f a = .ok b) (h : ∃ a ∈ l, f a = .error e) :
    l.mapM f = .error e := by
  induction l with
  | nil =>
      obtain ⟨a, ha, -⟩ := h
      cases ha
  | cons a l ih =>
      rw [List.mapM_cons]
      obtain hfail | ⟨b, hb⟩ := hf a List.mem_cons_self
      · rw [hfail]
        rfl
      · have hrest : ∃ a ∈ l, f a = .error e := by
          obtain ⟨a', ha', hfail⟩ := h
          cases ha' with
          | head =>
              rw [hb] at hfail
              cases hfail
          | tail _ ha' => exact ⟨a', ha', hfail⟩
        rw [hb, ih (fun a ha => hf a (List.mem_cons_of_mem _ ha)) hrest]
        rfl

theorem mapM_ok_of_forall {ε α β : Type} {f : α → Except ε β} {l : List α}
    (h : ∀ a ∈ l, ∃ b, f a = .ok b) : ∃ r, l.mapM f = .ok r := by
  induction l with
  | nil => exact ⟨[], rfl⟩
  | cons a l ih =>
      obtain ⟨b, hb⟩ := h a List.mem_cons_self
      obtain ⟨r, hr⟩ := ih fun a ha => h a (List.mem_cons_of_mem _ ha)
      refine ⟨b :: r, ?_⟩
      rw [List.mapM_cons, hb, hr]
      rfl

theorem exists_of_mapM {ε α β : Type} {f : α → Except ε β} {l : List α} {r : List β}
    (h : l.mapM f = .ok r) {b : β} (hb : b ∈ r) : ∃ a ∈ l, f a = .ok b := by
  induction l generalizing r with
  | nil =>
      cases h
      cases hb
  | cons a l ih =>
      rw [List.mapM_cons] at h
      obtain ⟨b', hb', h⟩ := bind_eq_ok.mp h
      obtain ⟨r', hr, h⟩ := bind_eq_ok.mp h
      cases h
      rcases List.mem_cons.mp hb with rfl | hb
      · exact ⟨a, List.mem_cons_self, hb'⟩
      · obtain ⟨a', ha', hf⟩ := ih hr hb
        exact ⟨a', List.mem_cons_of_mem _ ha', hf⟩

-- What every round of a loop keeps, the loop keeps.
theorem foldlM_invariant {ε α β : Type} {f : β → α → Except ε β} {P : β → Prop} {l : List α}
    (hstep : ∀ b, ∀ a ∈ l, ∀ b', P b → f b a = .ok b' → P b') {b b' : β} (hb : P b)
    (h : l.foldlM f b = .ok b') : P b' := by
  induction l generalizing b with
  | nil =>
      cases h
      exact hb
  | cons a l ih =>
      rw [List.foldlM_cons] at h
      obtain ⟨mid, hmid, hrest⟩ := bind_eq_ok.mp h
      exact ih (fun b a ha => hstep b a (List.mem_cons_of_mem _ ha))
        (hstep b a List.mem_cons_self mid hb hmid) hrest

-- The elements that a loop skips can be left out.
theorem foldlM_filterMap {ε α β γ : Type} {f : β → α → Except ε β} {g : β → γ → Except ε β}
    {p : α → Option γ} (hskip : ∀ b a, p a = none → f b a = .ok b)
    (hstep : ∀ b a c, p a = some c → f b a = g b c) (l : List α) (b : β) :
    l.foldlM f b = (l.filterMap p).foldlM g b := by
  induction l generalizing b with
  | nil => rfl
  | cons a l ih =>
      rw [List.foldlM_cons]
      cases ha : p a with
      | none =>
          rw [hskip b a ha, List.filterMap_cons_none ha]
          exact ih b
      | some c =>
          rw [hstep b a c ha, List.filterMap_cons_some ha, List.foldlM_cons]
          exact congrArg (g b c >>= ·) (funext ih)

-- A loop fails when one of its rounds fails from every state.
theorem foldlM_error_of_mem {ε α β : Type} {f : β → α → Except ε β} {l : List α} {a : α}
    (ha : a ∈ l) (h : ∀ b, ∃ e, f b a = .error e) (b : β) : ∃ e, l.foldlM f b = .error e := by
  induction l generalizing b with
  | nil => cases ha
  | cons a' l ih =>
      rw [List.foldlM_cons]
      cases hstep : f b a' with
      | error e => exact ⟨e, rfl⟩
      | ok b' =>
          obtain rfl | ha := List.mem_cons.mp ha
          · obtain ⟨e, he⟩ := h b
            rw [he] at hstep
            cases hstep
          · exact ih ha b'

end TTXla.Excepts

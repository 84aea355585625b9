import TTXla.Lib.Excepts

-- Two computations that may raise have the same outcome, and their results have a property.
namespace TTXla.Excepts

variable {ε α β : Type}

def Agree (P : α → Prop) (x y : Except ε α) : Prop := x = y ∧ ∀ a, x = .ok a → P a

namespace Agree

variable {P : α → Prop} {R : β → Prop} {x y : Except ε α} {f g : α → Except ε β}

theorem ok {a : α} (h : P a) : Agree P (.ok a : Except ε α) (.ok a) := by
  refine ⟨rfl, fun a' ha => ?_⟩
  cases ha
  exact h

theorem error (e : ε) : Agree P (.error e) (.error e) := ⟨rfl, fun _ ha => nomatch ha⟩

theorem refl (h : ∀ a, x = .ok a → P a) : Agree P x x := ⟨rfl, h⟩

theorem mono {P' : α → Prop} (h : Agree P x y) (hle : ∀ a, P a → P' a) : Agree P' x y :=
  ⟨h.1, fun a ha => hle a (h.2 a ha)⟩

-- What the first computation returns is all that the second knows.
theorem bind (h : Agree P x y) (hf : ∀ a, x = .ok a → P a → Agree R (f a) (g a)) :
    Agree R (x >>= f) (y >>= g) := by
  obtain ⟨rfl, hp⟩ := h
  cases x with
  | error e => exact error e
  | ok a => exact hf a rfl (hp a rfl)

theorem bind_same (hf : ∀ a, x = .ok a → Agree R (f a) (g a)) : Agree R (x >>= f) (x >>= g) := by
  have hx : Agree (fun _ => True) x x := refl fun _ _ => trivial
  exact hx.bind fun a ha _ => hf a ha

theorem foldlM {P : β → Prop} {f g : β → α → Except ε β} {l : List α}
    (hstep : ∀ b, ∀ a ∈ l, P b → Agree P (f b a) (g b a)) {b : β} (hb : P b) :
    Agree P (l.foldlM f b) (l.foldlM g b) := by
  induction l generalizing b with
  | nil => exact ok hb
  | cons a l ih =>
      rw [List.foldlM_cons, List.foldlM_cons]
      refine (hstep b a List.mem_cons_self hb).bind fun b' _ hb' => ?_
      exact ih (fun b a ha => hstep b a (List.mem_cons_of_mem _ ha)) hb'

end Agree

end TTXla.Excepts

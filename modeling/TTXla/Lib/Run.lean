import Mathlib.Data.Option.Basic

namespace TTXla.Run

variable {σ α : Type*}

-- The states that runs of a partial step function reach from `init`, when every
-- action taken meets the guard `ok` in the state before it.
inductive Reachable (step : σ → α → Option σ) (ok : σ → α → Prop) (init : σ) : σ → Prop
  | start : Reachable step ok init init
  | next {s s' : σ} {a : α} (h : Reachable step ok init s) (hok : ok s a)
      (hstep : step s a = some s') : Reachable step ok init s'

variable {step : σ → α → Option σ} {ok ok' : σ → α → Prop} {init s : σ}

-- What holds initially and survives every guarded step holds of every state reached.
theorem Reachable.invariant (inv : σ → Prop) (h0 : inv init)
    (hs : ∀ s a s', inv s → ok s a → step s a = some s' → inv s')
    (h : Reachable step ok init s) : inv s := by
  induction h with
  | start => exact h0
  | next _ hok hstep ih => exact hs _ _ _ ih hok hstep

theorem Reachable.mono (hle : ∀ s a, ok s a → ok' s a) (h : Reachable step ok init s) :
    Reachable step ok' init s := by
  induction h with
  | start => exact .start
  | next _ hok hstep ih => exact .next ih (hle _ _ hok) hstep

-- Execute a list of actions, stopping at the first one that is not allowed.
def exec (step : σ → α → Option σ) (ok : σ → α → Prop) [∀ s a, Decidable (ok s a)] :
    σ → List α → Option σ
  | s, [] => some s
  | s, a :: as => if ok s a then (step s a).bind fun s' => exec step ok s' as else none

theorem Reachable.of_exec [∀ s a, Decidable (ok s a)] (actions : List α) {s' : σ}
    (h : Reachable step ok init s) (he : exec step ok s actions = some s') :
    Reachable step ok init s' := by
  induction actions generalizing s with
  | nil => cases he; exact h
  | cons a as ih =>
      unfold exec at he
      split at he
      · rename_i hok
        obtain ⟨mid, hstep, hrest⟩ := Option.bind_eq_some_iff.mp he
        exact ih (h.next hok hstep) hrest
      · cases he

end TTXla.Run

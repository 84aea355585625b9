import Mathlib.Data.List.Basic
import Mathlib.Logic.Function.Basic

-- A memory after a list of writes, each to one address.
namespace TTXla.Writes

variable {α β : Type*} [DecidableEq α]

def store (m : α → β) (ws : List (α × β)) : α → β :=
  ws.foldl (fun m w => Function.update m w.1 w.2) m

theorem store_cons (m : α → β) (w : α × β) (ws : List (α × β)) :
    store m (w :: ws) = store (Function.update m w.1 w.2) ws := rfl

theorem store_append (m : α → β) (ws ws' : List (α × β)) :
    store m (ws ++ ws') = store (store m ws) ws' := List.foldl_append

-- An address that is not written keeps what it holds.
theorem store_of_notMem (m : α → β) (ws : List (α × β)) (a : α) (h : ∀ w ∈ ws, w.1 ≠ a) :
    store m ws a = m a := by
  induction ws generalizing m with
  | nil => rfl
  | cons w ws ih =>
      rw [store_cons, ih _ fun w' hw' => h w' (List.mem_cons_of_mem _ hw')]
      exact Function.update_of_ne (h w List.mem_cons_self).symm _ _

-- An address that is written with one value only holds that value.
theorem store_of_mem (m : α → β) (ws : List (α × β)) (a : α) (b : β)
    (hmem : ∃ w ∈ ws, w.1 = a) (hval : ∀ w ∈ ws, w.1 = a → w.2 = b) : store m ws a = b := by
  induction ws generalizing m with
  | nil =>
      obtain ⟨w, hw, -⟩ := hmem
      cases hw
  | cons w ws ih =>
      rw [store_cons]
      by_cases hlater : ∃ w' ∈ ws, w'.1 = a
      · exact ih _ hlater fun w' hw' => hval w' (List.mem_cons_of_mem _ hw')
      · have hlater' : ∀ w' ∈ ws, w'.1 ≠ a := fun w' hw' he => hlater ⟨w', hw', he⟩
        rw [store_of_notMem _ _ _ hlater']
        obtain ⟨w', hw', he⟩ := hmem
        rcases List.mem_cons.mp hw' with rfl | hw'
        · rw [← he, Function.update_self]
          exact hval w' List.mem_cons_self he
        · exact absurd he (hlater' w' hw')

-- Rows of writes, one after the other: a row decides what an address holds when no later
-- row writes to it.
theorem store_rows (m : α → β) (rows : Nat → List (α × β)) (n i : Nat) (hi : i < n) (a : α)
    (b : β) (hmem : ∃ w ∈ rows i, w.1 = a) (hval : ∀ w ∈ rows i, w.1 = a → w.2 = b)
    (hlater : ∀ j, i < j → j < n → ∀ w ∈ rows j, w.1 ≠ a) :
    store m ((List.range n).flatMap rows) a = b := by
  induction n with
  | zero => omega
  | succ n ih =>
      rw [List.range_succ, List.flatMap_append, List.flatMap_singleton, store_append]
      by_cases hin : i = n
      · subst hin
        exact store_of_mem _ _ _ _ hmem hval
      · rw [store_of_notMem _ _ _ (hlater n (by omega) (by omega))]
        exact ih (by omega) fun j hj hjn => hlater j hj (by omega)

end TTXla.Writes

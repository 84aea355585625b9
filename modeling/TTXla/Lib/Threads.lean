import Mathlib.Algebra.BigOperators.Group.Finset.Basic
import Mathlib.Algebra.BigOperators.Group.List.Basic
import Mathlib.Algebra.Order.BigOperators.Group.Finset
import Mathlib.Algebra.Ring.Nat

-- Threads with a stack of frames each. Only the top frame of a stack runs: a step replaces
-- it by the frames it leaves behind, and a call puts a frame on top.
namespace TTXla.Threads

open Finset

variable {T F : Type*} [Fintype T] (w : F → Nat)

-- The sum of a weight over the frames of all the stacks.
def total (threads : T → List F) : Nat := ∑ t, ((threads t).map w).sum

variable {w} {threads : T → List F} {t : T} {f : F} {rest : List F}

theorem le_total (hf : f ∈ threads t) : w f ≤ total w threads := by
  have hle : w f ≤ ((threads t).map w).sum :=
    List.single_le_sum (fun _ _ => Nat.zero_le _) _ (List.mem_map_of_mem hf)
  exact hle.trans (single_le_sum (f := fun t => ((threads t).map w).sum)
    (fun _ _ => Nat.zero_le _) (mem_univ t))

theorem total_eq_zero (h : ∀ t, ∀ f ∈ threads t, w f = 0) : total w threads = 0 := by
  refine sum_eq_zero fun t _ => ?_
  rw [List.sum_eq_zero]
  intro n hn
  obtain ⟨f, hf, rfl⟩ := List.mem_map.mp hn
  exact h t f hf

theorem exists_of_total_pos (h : 0 < total w threads) : ∃ t, ∃ f ∈ threads t, 0 < w f := by
  by_contra hne
  push Not at hne
  have hzero : total w threads = 0 := total_eq_zero fun t f hf => by
    have := hne t f hf
    omega
  omega

variable [DecidableEq T]

-- Replacing one stack exchanges its part of the sum.
theorem total_update (frames : List F) :
    total w (Function.update threads t frames) + ((threads t).map w).sum =
      total w threads + (frames.map w).sum := by
  have hrest : ∑ t' ∈ univ.erase t, ((Function.update threads t frames t').map w).sum =
      ∑ t' ∈ univ.erase t, ((threads t').map w).sum := by
    refine sum_congr rfl fun t' ht' => ?_
    rw [Function.update_of_ne (mem_erase.mp ht').1]
  have hnew := add_sum_erase univ
    (fun t' => ((Function.update threads t frames t').map w).sum) (mem_univ t)
  have hold := add_sum_erase univ (fun t' => ((threads t').map w).sum) (mem_univ t)
  simp only [Function.update_self] at hnew
  unfold total
  omega

-- A step of the top frame.
theorem total_step (frames : List F) (h : threads t = f :: rest) :
    total w (Function.update threads t (frames ++ rest)) + w f =
      total w threads + (frames.map w).sum := by
  have : total w (Function.update threads t (frames ++ rest)) + ((threads t).map w).sum =
      total w threads + ((frames ++ rest).map w).sum := total_update _
  rw [h] at this
  simp only [List.map_append, List.sum_append, List.map_cons, List.sum_cons] at this
  omega

-- A call.
theorem total_call (f : F) :
    total w (Function.update threads t (f :: threads t)) = total w threads + w f := by
  have : total w (Function.update threads t (f :: threads t)) + ((threads t).map w).sum =
      total w threads + ((f :: threads t).map w).sum := total_update _
  simp only [List.map_cons, List.sum_cons] at this
  omega

-- A frame that is on a stack after one stack was replaced.
omit [Fintype T] in
theorem mem_update {t' : T} {frames : List F} {g : F}
    (hg : g ∈ Function.update threads t frames t') :
    (t' = t ∧ g ∈ frames) ∨ (t' ≠ t ∧ g ∈ threads t') := by
  by_cases ht : t' = t
  · subst ht
    rw [Function.update_self] at hg
    exact .inl ⟨rfl, hg⟩
  · rw [Function.update_of_ne ht] at hg
    exact .inr ⟨ht, hg⟩

end TTXla.Threads

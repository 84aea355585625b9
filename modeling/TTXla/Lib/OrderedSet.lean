import Mathlib.Data.List.Sort

-- Sets that are kept in increasing order.
namespace TTXla

structure OrderedSet (α : Type*) [LinearOrder α] where
  elems : List α
  sorted : elems.Pairwise (· < ·)

namespace OrderedSet

variable {α : Type*} [LinearOrder α]

def insert_sorted (x : α) : List α → List α
  | [] => [x]
  | y :: ys =>
      if x < y then x :: y :: ys
      else if y < x then y :: insert_sorted x ys
      else y :: ys

theorem mem_insert_sorted (x y : α) (l : List α) :
    y ∈ insert_sorted x l ↔ y = x ∨ y ∈ l := by
  induction l with
  | nil => simp [insert_sorted]
  | cons z l ih =>
      unfold insert_sorted
      split
      · exact List.mem_cons
      · rename_i hxz
        split
        · rw [List.mem_cons, ih, List.mem_cons]
          tauto
        · rename_i hzx
          obtain rfl := le_antisymm (not_lt.mp hzx) (not_lt.mp hxz)
          simp

theorem pairwise_insert_sorted (x : α) {l : List α} (h : l.Pairwise (· < ·)) :
    (insert_sorted x l).Pairwise (· < ·) := by
  induction l with
  | nil => exact List.pairwise_singleton _ _
  | cons y l ih =>
      obtain ⟨hy, hl⟩ := List.pairwise_cons.mp h
      unfold insert_sorted
      split
      · rename_i hxy
        refine List.pairwise_cons.mpr ⟨fun z hz => ?_, h⟩
        cases hz with
        | head => exact hxy
        | tail _ hz => exact lt_trans hxy (hy z hz)
      · split
        · rename_i hyx
          refine List.pairwise_cons.mpr ⟨fun z hz => ?_, ih hl⟩
          obtain rfl | hz := (mem_insert_sorted x z l).mp hz
          · exact hyx
          · exact hy z hz
        · exact h

def empty : OrderedSet α := ⟨[], .nil⟩

def insert (s : OrderedSet α) (x : α) : OrderedSet α :=
  ⟨insert_sorted x s.elems, pairwise_insert_sorted x s.sorted⟩

def insert_all (s : OrderedSet α) (l : List α) : OrderedSet α := l.foldl insert s

theorem mem_insert (s : OrderedSet α) (x y : α) :
    y ∈ (s.insert x).elems ↔ y = x ∨ y ∈ s.elems := mem_insert_sorted x y s.elems

theorem mem_insert_all (s : OrderedSet α) (l : List α) (y : α) :
    y ∈ (s.insert_all l).elems ↔ y ∈ l ∨ y ∈ s.elems := by
  induction l generalizing s with
  | nil => simp [insert_all]
  | cons x l ih =>
      have hstep : s.insert_all (x :: l) = (s.insert x).insert_all l := rfl
      rw [hstep, ih, mem_insert, List.mem_cons]
      tauto

theorem insert_all_append (s : OrderedSet α) (l l' : List α) :
    s.insert_all (l ++ l') = (s.insert_all l).insert_all l' := List.foldl_append

theorem elems_eq_of_mem_iff {s : OrderedSet α} {l : List α} (hl : l.Pairwise (· < ·))
    (h : ∀ x, x ∈ s.elems ↔ x ∈ l) : s.elems = l :=
  s.sorted.eq_of_mem_iff hl h

end OrderedSet

end TTXla

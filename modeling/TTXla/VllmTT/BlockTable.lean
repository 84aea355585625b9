import TTXla.VllmTT.Types

namespace TTXla.VllmTT

-- vLLM's `MultiGroupBlockTable`, known by its interface: what a row holds, and that
-- `add_row`, `append_row` and `move_row` overwrite the leading entries of one row
-- and leave the tail of that row and every other row as they were.
class BlockTable (T : Type) where
  groups : T → Nat
  entry : T → Nat → Nat → Nat → Nat
  count : T → Nat → Nat → Nat
  add_row : T → List (List Nat) → Nat → Option T
  append_row : T → List (List Nat) → Nat → Option T
  move_row : T → Nat → Nat → T
  swap_row : T → Nat → Nat → T
  add_row_spec : ∀ {t t' : T} {ids row}, add_row t ids row = some t' →
    groups t' = groups t ∧ ∀ g < groups t, ∃ blk, ids[g]? = some blk ∧
      count t' g row = blk.length ∧
      (∀ j, entry t' g row j = (blk[j]?).getD (entry t g row j)) ∧
      ∀ r, r ≠ row → count t' g r = count t g r ∧ ∀ j, entry t' g r j = entry t g r j
  append_row_spec : ∀ {t t' : T} {ids row}, append_row t ids row = some t' →
    groups t' = groups t ∧ ∀ g < groups t, ∃ blk, ids[g]? = some blk ∧
      count t' g row = count t g row + blk.length ∧
      (∀ j, entry t' g row j = if j < count t g row then entry t g row j else
        (blk[j - count t g row]?).getD (entry t g row j)) ∧
      ∀ r, r ≠ row → count t' g r = count t g r ∧ ∀ j, entry t' g r j = entry t g r j
  move_row_spec : ∀ (t : T) (src tgt : Nat), groups (move_row t src tgt) = groups t ∧
    ∀ g < groups t, count (move_row t src tgt) g tgt = count t g src ∧
      (∀ j, entry (move_row t src tgt) g tgt j =
        if j < count t g src then entry t g src j else entry t g tgt j) ∧
      ∀ r, r ≠ tgt → count (move_row t src tgt) g r = count t g r ∧
        ∀ j, entry (move_row t src tgt) g r j = entry t g r j
  swap_row_spec : ∀ (t : T) (src tgt : Nat), groups (swap_row t src tgt) = groups t ∧
    ∀ g < groups t, ∀ r,
      let r' := if r = src then tgt else if r = tgt then src else r
      count (swap_row t src tgt) g r = count t g r' ∧
        ∀ j, entry (swap_row t src tgt) g r j = entry t g r' j

namespace BlockTable

variable {T : Type} [BlockTable T]

-- The block ids a row holds, without the stale entries of its tail.
def blocks (t : T) (g row : Nat) : List Nat :=
  (List.range (count t g row)).map (entry t g row)

theorem blocks_congr (t t' : T) (g row row' : Nat) (hc : count t' g row' = count t g row)
    (he : ∀ j < count t g row, entry t' g row' j = entry t g row j) :
    blocks t' g row' = blocks t g row := by
  unfold blocks
  rw [hc]
  exact List.map_congr_left fun j hj => he j (List.mem_range.mp hj)

theorem blocks_add_row {t t' : T} {ids : List (List Nat)} {row : Nat}
    (h : add_row t ids row = some t') (g : Nat) (hg : g < groups t) :
    ids[g]? = some (blocks t' g row) ∧ ∀ r, r ≠ row → blocks t' g r = blocks t g r := by
  obtain ⟨blk, hb, hc, he, hr⟩ := (add_row_spec h).2 g hg
  refine ⟨?_, fun r hne => blocks_congr t t' g r r (hr r hne).1 fun j _ => (hr r hne).2 j⟩
  rw [hb, Option.some.injEq]
  apply List.ext_getElem
  · simp [blocks, hc]
  · intro j h1 h2
    simp [blocks, he, h1]

theorem blocks_append_row {t t' : T} {ids : List (List Nat)} {row : Nat}
    (h : append_row t ids row = some t') (g : Nat) (hg : g < groups t) :
    (∃ blk, ids[g]? = some blk ∧ blocks t' g row = blocks t g row ++ blk) ∧
      ∀ r, r ≠ row → blocks t' g r = blocks t g r := by
  obtain ⟨blk, hb, hc, he, hr⟩ := (append_row_spec h).2 g hg
  refine ⟨⟨blk, hb, ?_⟩, fun r hne =>
    blocks_congr t t' g r r (hr r hne).1 fun j _ => (hr r hne).2 j⟩
  apply List.ext_getElem
  · simp [blocks, hc]
  · intro j h1 h2
    simp only [blocks, hc, List.length_map, List.length_range] at h1
    rw [List.getElem_append]
    simp only [blocks, List.getElem_map, List.getElem_range, List.length_map, List.length_range, he]
    split
    · rfl
    · simp [List.getElem?_eq_getElem (show j - count t g row < blk.length by omega)]

theorem blocks_move_row (t : T) (src tgt g : Nat) (hg : g < groups t) :
    blocks (move_row t src tgt) g tgt = blocks t g src ∧
      ∀ r, r ≠ tgt → blocks (move_row t src tgt) g r = blocks t g r := by
  obtain ⟨hc, he, hr⟩ := (move_row_spec t src tgt).2 g hg
  refine ⟨blocks_congr _ _ _ _ _ hc fun j hj => ?_, fun r hne =>
    blocks_congr _ _ _ _ _ (hr r hne).1 fun j _ => (hr r hne).2 j⟩
  rw [he, if_pos hj]

end BlockTable

-- A block table held as it stands in memory.
structure DenseTable where
  groups : Nat
  entry : Nat → Nat → Nat → Nat
  count : Nat → Nat → Nat
  deriving Inhabited

namespace DenseTable

-- `groups` empty tables.
def zeros (groups : Nat) : DenseTable := ⟨groups, fun _ _ _ => 0, fun _ _ => 0⟩

-- Overwrite a row of every group from column `start g` on.
def write (t : DenseTable) (ids : List (List Nat)) (row : Nat) (start : Nat → Nat) :
    Option DenseTable :=
  if t.groups ≤ ids.length then
    some { t with
      entry := fun g r j =>
        if r = row ∧ start g ≤ j then ((ids.getD g [])[j - start g]?).getD (t.entry g r j)
        else t.entry g r j
      count := fun g r => if r = row then start g + (ids.getD g []).length else t.count g r }
  else none

theorem write_spec {t t' : DenseTable} {ids : List (List Nat)} {row : Nat} {start : Nat → Nat}
    (h : write t ids row start = some t') :
    t'.groups = t.groups ∧ ∀ g < t.groups, ∃ blk, ids[g]? = some blk ∧
      t'.count g row = start g + blk.length ∧
      (∀ j, t'.entry g row j =
        if j < start g then t.entry g row j else (blk[j - start g]?).getD (t.entry g row j)) ∧
      ∀ r, r ≠ row → t'.count g r = t.count g r ∧ ∀ j, t'.entry g r j = t.entry g r j := by
  unfold write at h
  split at h
  · rename_i hle
    cases h
    refine ⟨rfl, fun g hg => ⟨ids[g], List.getElem?_eq_getElem (by omega), ?_, fun j => ?_,
      fun r hr => ?_⟩⟩
    · simp [show g < ids.length by omega]
    · by_cases hj : start g ≤ j
      · simp [hj, show ¬j < start g by omega, show g < ids.length by omega]
      · simp [hj, show j < start g by omega]
    · simp [hr]
  · cases h

end DenseTable

instance : BlockTable DenseTable where
  groups := DenseTable.groups
  entry := DenseTable.entry
  count := DenseTable.count
  add_row t ids row := t.write ids row fun _ => 0
  append_row t ids row := t.write ids row fun g => t.count g row
  move_row t src tgt := { t with
    entry := fun g r j => if r = tgt ∧ j < t.count g src then t.entry g src j else t.entry g r j
    count := fun g r => if r = tgt then t.count g src else t.count g r }
  swap_row t src tgt := { t with
    entry := fun g r => t.entry g (if r = src then tgt else if r = tgt then src else r)
    count := fun g r => t.count g (if r = src then tgt else if r = tgt then src else r) }
  add_row_spec h := by
    obtain ⟨hg, hw⟩ := DenseTable.write_spec h
    exact ⟨hg, fun g hlt => by simpa using hw g hlt⟩
  append_row_spec h := DenseTable.write_spec h
  move_row_spec t src tgt := by
    refine ⟨rfl, fun g _ => ⟨if_pos rfl, fun j => by simp, fun r hr => ?_⟩⟩
    exact ⟨if_neg hr, fun j => by simp [hr]⟩
  swap_row_spec t src tgt := ⟨rfl, fun g _ r => ⟨rfl, fun j => rfl⟩⟩

end TTXla.VllmTT

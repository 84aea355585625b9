import Mathlib.Data.List.Basic

-- Programs over a memory of cells, which only grows. A cell is known by its place.
namespace TTXla.Memory

variable {C : Type}

abbrev Prog (C α : Type) := StateT (List C) Option α

def load (ref : Nat) : Prog C C := fun memory => memory[ref]?.map (·, memory)

def new (cell : C) : Prog C Nat := fun memory => some (memory.length, memory ++ [cell])

def store (ref : Nat) (cell : C) : Prog C Unit := fun memory =>
  if ref < memory.length then some ((), memory.set ref cell) else none

def lift {α : Type} (x : Option α) : Prog C α := fun memory => x.map (·, memory)

section Runs

variable {α β : Type} {memory memory' : List C} {ref : Nat} {cell : C}

theorem bind_eq_some {x : Prog C α} {f : α → Prog C β} {b : β} :
    (x >>= f) memory = some (b, memory') ↔
      ∃ a mid, x memory = some (a, mid) ∧ f a mid = some (b, memory') := by
  change (x memory).bind (fun p => f p.1 p.2) = some (b, memory') ↔ _
  rw [Option.bind_eq_some_iff]
  exact ⟨fun ⟨p, hp, hf⟩ => ⟨p.1, p.2, hp, hf⟩, fun ⟨a, mid, ha, hf⟩ => ⟨(a, mid), ha, hf⟩⟩

theorem pure_eq_some {a b : α} :
    (pure a : Prog C α) memory = some (b, memory') ↔ a = b ∧ memory = memory' := by
  change some (a, memory) = some (b, memory') ↔ _
  rw [Option.some.injEq, Prod.mk.injEq]

theorem load_eq_some :
    load ref memory = some (cell, memory') ↔ memory[ref]? = some cell ∧ memory = memory' := by
  unfold load
  rw [Option.map_eq_some_iff]
  constructor
  · rintro ⟨c, hc, heq⟩
    cases heq
    exact ⟨hc, rfl⟩
  · rintro ⟨hc, rfl⟩
    exact ⟨cell, hc, rfl⟩

theorem lift_eq_some {x : Option α} {a : α} :
    (lift x : Prog C α) memory = some (a, memory') ↔ x = some a ∧ memory = memory' := by
  unfold lift
  rw [Option.map_eq_some_iff]
  constructor
  · rintro ⟨c, hc, heq⟩
    cases heq
    exact ⟨hc, rfl⟩
  · rintro ⟨hc, rfl⟩
    exact ⟨a, hc, rfl⟩

theorem store_eq_some {u : Unit} :
    store ref cell memory = some (u, memory') ↔
      ref < memory.length ∧ memory.set ref cell = memory' := by
  unfold store
  split
  · rename_i hlt
    rw [Option.some.injEq, Prod.mk.injEq, and_iff_right hlt, and_iff_right rfl]
  · rename_i hge
    exact ⟨fun h => (nomatch h), fun h => absurd h.1 hge⟩

end Runs

-- The reference is the given one, in the memory as it was, or it is to a new cell.
structure Fresh (memory : List C) (ref : Nat) (memory' : List C) : Prop where
  grows : memory <+: memory'
  outside : memory.length ≤ ref
  inside : ref < memory'.length

section Frames

variable {memory mid memory' : List C} {ref : Nat} {cell : C}

theorem prefix_getElem? (h : memory <+: memory') {k : Nat} (hk : k < memory.length) :
    memory'[k]? = memory[k]? := by
  obtain ⟨tail, rfl⟩ := h
  exact List.getElem?_append_left hk

theorem prefix_set (h : memory <+: mid) (href : memory.length ≤ ref) (cell : C) :
    memory <+: mid.set ref cell := by
  obtain ⟨tail, rfl⟩ := h
  rw [List.set_append_right ref cell href]
  exact List.prefix_append _ _

theorem fresh_new (memory : List C) (cell : C) :
    Fresh memory memory.length (memory ++ [cell]) :=
  ⟨List.prefix_append _ _, Nat.le_refl _, by simp⟩

theorem Fresh.trans {old : List C} {ref' : Nat} (h : Fresh old ref memory)
    (h' : Fresh memory ref' memory') : Fresh old ref' memory' :=
  ⟨h.grows.trans h'.grows, Nat.le_trans h.grows.length_le h'.outside, h'.inside⟩

theorem Fresh.set (h : Fresh memory ref mid) (cell : C) : Fresh memory ref (mid.set ref cell) :=
  ⟨prefix_set h.grows h.outside cell, h.outside, by rw [List.length_set]; exact h.inside⟩

end Frames

end TTXla.Memory

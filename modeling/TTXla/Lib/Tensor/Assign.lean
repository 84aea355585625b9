import TTXla.Lib.Tensor

-- Assignments to a part of a tensor, `t[index] = value`.
namespace TTXla.Tensor

variable {α β : Type*}

-- The place of an index in a dimension, where a negative one counts from the end.
def place (n : Nat) (i : Int) : Option Nat :=
  let i := if i < 0 then i + n else i
  if 0 ≤ i ∧ i < n then some i.toNat else none

-- `t[..., start : start + len, ...]` along a dimension.
def narrow (t : Tensor α) (dim start len : Nat) : Tensor α where
  shape := t.shape.set dim len
  get := fun is => t.get (is.set dim (start + is.getD dim 0))

-- A value of the one shape can be broadcast to the other.
def expands (vs ds : List Nat) : Bool :=
  vs.length ≤ ds.length &&
    (List.zipWith (fun v d => v == 1 || v == d) vs (ds.drop (ds.length - vs.length))).all id

-- The last place of an element in a list.
def lastIdx [DecidableEq β] : List β → β → Option Nat
  | [], _ => none
  | a :: l, b =>
      match lastIdx l b with
      | some i => some (i + 1)
      | none => if a = b then some 0 else none

-- `source` is where in the value an element comes from, `shape` what the index selects.
def assign (t value : Tensor α) (shape : List Nat) (source : List Nat → Option (List Nat)) :
    Option (Tensor α) :=
  if expands value.shape shape then
    some ⟨t.shape, fun is => (source is).elim (t.get is) value.bget⟩
  else none

theorem place_eq_some {n : Nat} {i : Int} {k : Nat} :
    place n i = some k ↔ k < n ∧ (i = k ∨ i + n = k) := by
  unfold place
  dsimp only
  split
  · split
    · rw [Option.some.injEq]
      omega
    · simp only [reduceCtorEq, false_iff]
      omega
  · split
    · rw [Option.some.injEq]
      omega
    · simp only [reduceCtorEq, false_iff]
      omega

theorem expands_self (ds : List Nat) : expands ds ds = true := by
  unfold expands
  simp only [Nat.le_refl, decide_true, Nat.sub_self, List.drop_zero, Bool.true_and]
  induction ds with
  | nil => rfl
  | cons d ds ih =>
      rw [List.zipWith_cons_cons, List.all_cons, ih, beq_self_eq_true, Bool.or_true]
      rfl

theorem exists_assign (t : Tensor α) {value : Tensor α} {shape : List Nat}
    (h : value.shape = shape) (source : List Nat → Option (List Nat)) :
    ∃ u, t.assign value shape source = some u ∧ u.shape = t.shape ∧
      ∀ is, u.get is = (source is).elim (t.get is) value.bget := by
  subst h
  exact ⟨_, if_pos (expands_self _), rfl, fun _ => rfl⟩

variable [DecidableEq β]

theorem lastIdx_eq_none {l : List β} {b : β} : lastIdx l b = none ↔ b ∉ l := by
  induction l with
  | nil => simp [lastIdx]
  | cons a l ih =>
      rw [List.mem_cons, not_or, ← ih, lastIdx]
      cases lastIdx l b with
      | none =>
          by_cases hab : a = b
          · simp [hab]
          · simp [hab, Ne.symm hab]
      | some i => simp

theorem getElem?_of_lastIdx {l : List β} {b : β} {i : Nat} (h : lastIdx l b = some i) :
    l[i]? = some b := by
  induction l generalizing i with
  | nil => cases h
  | cons a l ih =>
      rw [lastIdx] at h
      cases hrest : lastIdx l b with
      | none =>
          simp only [hrest] at h
          split at h
          · rename_i hab
            cases h
            rw [List.getElem?_cons_zero, hab]
          · cases h
      | some j =>
          simp only [hrest, Option.some.injEq] at h
          subst h
          rw [List.getElem?_cons_succ, ih hrest]

theorem lastIdx_of_unique {l : List β} {b : β} {i : Nat} (h : l[i]? = some b)
    (hunique : ∀ j, l[j]? = some b → j = i) : lastIdx l b = some i := by
  cases hlast : lastIdx l b with
  | none => exact absurd (List.mem_of_getElem? h) (lastIdx_eq_none.mp hlast)
  | some j => rw [hunique j (getElem?_of_lastIdx hlast)]

end TTXla.Tensor

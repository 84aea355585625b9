import TTXla.Lib.Tensor
import TTXla.Lib.Options

-- Tensors of one dimension: flattened tensors, prefix sums and indexing.
namespace TTXla.Tensor

variable {α : Type}

def numel (t : Tensor α) : Nat := t.shape.prod

-- `t.reshape(-1)`.
def flatten (t : Tensor α) : Tensor α := t.view [t.numel]

-- `torch.cumsum(t, 0)`.
def cumsum [AddCommMonoid α] (t : Tensor α) : Tensor α where
  shape := t.shape
  get := fun is => ∑ j ∈ Finset.range (is.headD 0 + 1), t.get [j]

-- `t[indices]`, where a negative index counts from the end. There is no result when an index is
-- out of range.
def take (t : Tensor α) (indices : Tensor Int) : Option (Tensor α) :=
  let n : Int := t.shape.headD 0
  if ∀ i < indices.shape.headD 0, -n ≤ indices.get [i] ∧ indices.get [i] < n then
    some ⟨indices.shape, fun is =>
      let index := indices.get is
      t.get [(if index < 0 then index + n else index).toNat]⟩
  else none

-- The sizes of two shapes, aligned at the right, are equal or one of them is 1.
def Broadcastable (s t : List Nat) : Prop :=
  List.Forall₂ (fun a b => a = b ∨ a = 1 ∨ b = 1)
    (List.replicate (max s.length t.length - s.length) 1 ++ s)
    (List.replicate (max s.length t.length - t.length) 1 ++ t)

instance (s t : List Nat) : Decidable (Broadcastable s t) :=
  inferInstanceAs (Decidable (List.Forall₂ _ _ _))

def broadcast_to (t : Tensor α) (shape : List Nat) : Tensor α := ⟨shape, t.bget⟩

section Lemmas

theorem flatten_get (t : Tensor α) (p : Nat) : t.flatten.get [p] = t.get (unravel t.shape p) := by
  unfold flatten view
  simp

theorem flatten_shape (t : Tensor α) : t.flatten.shape = [t.numel] := rfl

-- Back in the shape, an element is the one at its position.
theorem view_flat_get {t : Tensor α} {n : Nat} (ht : t.shape = [n]) (shape is : List Nat) :
    (t.view shape).get is = t.get [ravel shape is] := by
  unfold view
  simp [ht, unravel]

theorem take_eq_some {t : Tensor α} {indices : Tensor Int} {n m : Nat} {f : Nat → Nat}
    (ht : t.shape = [n]) (hindices : indices.shape = [m])
    (hget : ∀ i < m, indices.get [i] = f i) (hlt : ∀ i < m, f i < n) :
    ∃ r, t.take indices = some r ∧ r.shape = [m] ∧ ∀ i < m, r.get [i] = t.get [f i] := by
  have hrange : ∀ i < indices.shape.headD 0, -((t.shape.headD 0 : Nat) : Int) ≤ indices.get [i] ∧
      indices.get [i] < (t.shape.headD 0 : Nat) := by
    rw [ht, hindices]
    intro i hi
    have := hlt i hi
    rw [hget i hi]
    simp only [List.headD_cons]
    omega
  refine ⟨_, if_pos hrange, hindices, fun i hi => ?_⟩
  have hnot : ¬indices.get [i] < 0 := by
    rw [hget i hi]
    omega
  dsimp only
  rw [if_neg hnot, hget i hi, Int.toNat_natCast]

theorem take_eq_none {t : Tensor α} {indices : Tensor Int} {i m : Nat}
    (hindices : indices.shape = [m]) (hi : i < m)
    (hrange : indices.get [i] < -((t.shape.headD 0 : Nat) : Int)) : t.take indices = none := by
  refine if_neg fun h => ?_
  rw [hindices] at h
  obtain ⟨hlow, -⟩ := h i hi
  omega

theorem cumsum_count {p : Nat → Bool} (t : Tensor Bool) (hp : ∀ j, t.get [j] = p j) (i : Nat) :
    (cumsum (t.map fun b => if b then (1 : Int) else 0)).get [i] =
      ((List.range (i + 1)).countP p : Nat) := by
  have hsum : ∀ n, ∑ j ∈ Finset.range n, (if p j then (1 : Int) else 0) =
      ((List.range n).countP p : Nat) := by
    intro n
    induction n with
    | zero => rfl
    | succ n ih =>
        rw [Finset.sum_range_succ, ih, List.range_succ, List.countP_append, List.countP_singleton]
        push_cast
        rfl
  rw [← hsum]
  simp only [← hp]
  rfl

end Lemmas

end TTXla.Tensor

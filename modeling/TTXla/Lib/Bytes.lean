import Mathlib.Algebra.Ring.Nat
import Mathlib.Data.List.TakeDrop

-- Numbers of a fixed width in memory, and ranges of memory.
namespace TTXla.Bytes

-- The `n` low bytes of a number, the lowest first.
def to_bytes : Nat → Nat → List UInt8
  | 0, _ => []
  | n + 1, v => UInt8.ofNat v :: to_bytes n (v / 256)

def from_bytes : List UInt8 → Nat
  | [] => 0
  | b :: bs => b.toNat + 256 * from_bytes bs

@[simp] theorem length_to_bytes (n v : Nat) : (to_bytes n v).length = n := by
  induction n generalizing v with
  | zero => rfl
  | succ n ih => simp only [to_bytes, List.length_cons, ih]

theorem from_bytes_to_bytes (n v : Nat) : from_bytes (to_bytes n v) = v % 256 ^ n := by
  induction n generalizing v with
  | zero => simp [to_bytes, from_bytes, Nat.mod_one]
  | succ n ih =>
      have hlow : (UInt8.ofNat v).toNat = v % 256 := UInt8.toNat_ofNat'
      rw [to_bytes, from_bytes, ih, hlow, ← Nat.mod_mul, Nat.pow_succ' (m := 256)]

section Slice

variable {α : Type*} (xs : List α) (start size : Nat)

def slice : List α := (xs.drop start).take size

theorem length_slice : (slice xs start size).length = min size (xs.length - start) := by
  rw [slice, List.length_take, List.length_drop]

theorem length_slice_of_le (h : start + size ≤ xs.length) :
    (slice xs start size).length = size := by
  rw [length_slice]
  omega

variable {xs}

-- The part of a concatenation that stands after `before`.
theorem slice_append {before part : List α} (after : List α) (hstart : before.length = start)
    (hsize : part.length = size) : slice (before ++ part ++ after) start size = part := by
  subst hstart hsize
  rw [slice, List.append_assoc, List.drop_left, List.take_left]

end Slice

-- The `i`-th of several numbers of `w` bytes each.
theorem slice_words (w : Nat) {words : List Nat} (after : List UInt8) {i word start : Nat} :
    ∀ {before : List UInt8}, before.length + w * i = start → words[i]? = some word →
      slice (before ++ words.flatMap (to_bytes w) ++ after) start w = to_bytes w word := by
  induction words generalizing i with
  | nil =>
      intro before _ hword
      cases hword
  | cons first words ih =>
      intro before hstart hword
      cases i with
      | zero =>
          cases hword
          rw [List.flatMap_cons, ← List.append_assoc, List.append_assoc _ (words.flatMap _)]
          exact slice_append _ _ _ (by omega) (length_to_bytes w word)
      | succ i =>
          rw [List.flatMap_cons, ← List.append_assoc]
          refine ih (i := i) ?_ hword
          rw [List.length_append, length_to_bytes]
          rw [Nat.mul_succ] at hstart
          omega

end TTXla.Bytes

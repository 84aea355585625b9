import TTXla.Lib.Tensor
import Mathlib.Algebra.Order.Ring.Int

-- Addresses of the elements of an array, from its strides.
namespace TTXla.Tensor

-- The sum of the indices, each times the stride of its dimension.
def address (strides : List Int) (is : List Nat) : Int :=
  (List.zipWith (fun (s : Int) (i : Nat) => i * s) strides is).sum

def row_major : List Nat → List Nat
  | [] => []
  | _ :: ds => ds.prod :: row_major ds

@[simp] theorem address_nil (is : List Nat) : address [] is = 0 := rfl

@[simp] theorem address_cons (s : Int) (strides : List Int) (i : Nat) (is : List Nat) :
    address (s :: strides) (i :: is) = i * s + address strides is := List.sum_cons

theorem length_row_major (ds : List Nat) : (row_major ds).length = ds.length := by
  induction ds with
  | nil => rfl
  | cons d ds ih => rw [row_major, List.length_cons, List.length_cons, ih]

theorem address_map_mul (size : Int) (strides : List Int) (is : List Nat) :
    address (strides.map (size * ·)) is = size * address strides is := by
  induction strides generalizing is with
  | nil => exact (Int.mul_zero size).symm
  | cons s strides ih =>
      cases is with
      | nil => exact (Int.mul_zero size).symm
      | cons i is =>
          rw [List.map_cons, address_cons, address_cons, ih]
          ring

theorem address_row_major (size : Nat) {ds is : List Nat} (h : InBounds is ds) :
    address ((row_major ds).map fun s : Nat => (size : Int) * s) is = size * ravel ds is := by
  induction h with
  | nil => rfl
  | @cons i d is ds hi his ih =>
      rw [row_major, List.map_cons, address_cons, ih, ravel_cons]
      push_cast
      ring

theorem inBounds_zeros {ds : List Nat} (hpos : ∀ d ∈ ds, 0 < d) :
    InBounds (ds.map fun _ => 0) ds := by
  induction ds with
  | nil => exact .nil
  | cons d ds ih =>
      rw [List.map_cons]
      exact inBounds_cons.mpr ⟨hpos d List.mem_cons_self,
        ih fun d hd => hpos d (List.mem_cons_of_mem _ hd)⟩

theorem address_zeros (strides : List Int) (ds : List Nat) :
    address strides (ds.map fun _ => 0) = 0 := by
  induction ds generalizing strides with
  | nil =>
      cases strides with
      | nil => rfl
      | cons s strides => rfl
  | cons d ds ih =>
      cases strides with
      | nil => rfl
      | cons s strides =>
          rw [List.map_cons, address_cons, ih]
          simp

-- The strides of the dimensions that have a second index decide the addresses.
theorem address_eq_iff {ds : List Nat} {s u : List Int} (hs : s.length = ds.length)
    (hu : u.length = ds.length) (hpos : ∀ d ∈ ds, 0 < d) :
    (∀ is, InBounds is ds → address s is = address u is) ↔
      ∀ x ∈ ds.zip (s.zip u), 1 < x.1 → x.2.1 = x.2.2 := by
  induction ds generalizing s u with
  | nil =>
      rw [List.length_nil, List.length_eq_zero_iff] at hs hu
      subst hs hu
      exact ⟨fun _ x hx => (nomatch hx), fun _ _ _ => rfl⟩
  | cons d ds ih =>
      obtain ⟨s₀, s, rfl⟩ := List.exists_cons_of_length_eq_add_one hs
      obtain ⟨u₀, u, rfl⟩ := List.exists_cons_of_length_eq_add_one hu
      have hd := hpos d List.mem_cons_self
      have hrest : ∀ d ∈ ds, 0 < d := fun d hd => hpos d (List.mem_cons_of_mem _ hd)
      have htail := ih (Nat.succ.inj hs) (Nat.succ.inj hu) hrest
      rw [List.zip_cons_cons, List.zip_cons_cons, List.forall_mem_cons, ← htail]
      constructor
      · intro h
        constructor
        · intro h1
          have hone := h (1 :: ds.map fun _ => 0)
            (inBounds_cons.mpr ⟨h1, inBounds_zeros hrest⟩)
          rw [address_cons, address_cons, address_zeros, address_zeros] at hone
          simpa using hone
        · intro is his
          have hzero := h (0 :: is) (inBounds_cons.mpr ⟨hd, his⟩)
          rw [address_cons, address_cons] at hzero
          simpa using hzero
      · intro h is his
        obtain ⟨h0, hrest⟩ := h
        cases his with
        | @cons i _ is _ hi his =>
            rw [address_cons, address_cons, hrest is his]
            cases i with
            | zero => simp
            | succ i =>
                have heq : s₀ = u₀ := h0 (Nat.lt_of_le_of_lt (Nat.le_add_left 1 i) hi)
                rw [heq]

theorem address_map_eq_iff {α : Type} {ds : List Nat} {strides : List α}
    (hstrides : strides.length = ds.length) (hpos : ∀ d ∈ ds, 0 < d) (s u : α → Int) :
    (∀ is, InBounds is ds → address (strides.map s) is = address (strides.map u) is) ↔
      ∀ x ∈ ds.zip strides, 1 < x.1 → s x.2 = u x.2 := by
  rw [address_eq_iff (by simpa using hstrides) (by simpa using hstrides) hpos, List.zip_map',
    List.zip_map_right, List.forall_mem_map]
  rfl

theorem prod_eq_one_iff {ds : List Nat} : ds.prod = 1 ↔ ∀ d ∈ ds, d = 1 := by
  induction ds with
  | nil => simp
  | cons d ds ih =>
      rw [List.prod_cons, List.forall_mem_cons, ← ih]
      constructor
      · intro h
        exact ⟨Nat.eq_one_of_mul_eq_one_right h, Nat.eq_one_of_mul_eq_one_left h⟩
      · intro h
        rw [h.1, h.2]

-- Dense strides of one are those of an array with at most one dimension that has a second index.
theorem row_major_ones_iff {ds : List Nat} (hpos : ∀ d ∈ ds, 0 < d) :
    (∀ x ∈ ds.zip (row_major ds), 1 < x.1 → x.2 = 1) ↔
      (ds.filter fun d => 1 < d).length ≤ 1 := by
  induction ds with
  | nil => exact ⟨fun _ => Nat.zero_le 1, fun _ x hx => (nomatch hx)⟩
  | cons d ds ih =>
      have hrest : ∀ d ∈ ds, 0 < d := fun d hd => hpos d (List.mem_cons_of_mem _ hd)
      have hone : ds.prod = 1 ↔ ds.filter (fun d => 1 < d) = [] := by
        rw [List.filter_eq_nil_iff, prod_eq_one_iff]
        refine forall₂_congr fun d hd => ?_
        have := hrest d hd
        simp only [decide_eq_true_eq]
        omega
      rw [row_major, List.zip_cons_cons, List.forall_mem_cons, ih hrest]
      by_cases hd : 1 < d
      · rw [List.filter_cons_of_pos (by simpa using hd), List.length_cons]
        simp only [hd, forall_const, hone]
        constructor
        · intro h
          rw [h.1]
          exact Nat.le_refl 1
        · intro h
          have hnil := List.length_eq_zero_iff.mp (Nat.le_zero.mp (Nat.le_of_succ_le_succ h))
          exact ⟨hnil, by rw [hnil]; exact Nat.zero_le 1⟩
      · rw [List.filter_cons_of_neg (by simpa using hd)]
        exact and_iff_right fun h => absurd h hd

end TTXla.Tensor

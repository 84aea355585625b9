import TTXla.Lib.Tensor
import Mathlib.Data.List.GetD
import Mathlib.Data.List.Perm.Basic

-- Enumerations of positions, from sizes and strides.
namespace TTXla.Strided

open Tensor

-- The number of positions of a list of sizes and strides.
def count (l : List (Nat × Nat)) : Nat := (l.map Prod.fst).prod

-- The position of number `k`: the last size runs fastest.
def offset : List (Nat × Nat) → Nat → Nat
  | [], _ => 0
  | (_, s) :: l, k => k / count l * s + offset l (k % count l)

@[simp] theorem count_nil : count [] = 1 := rfl

@[simp] theorem count_cons (a s : Nat) (l : List (Nat × Nat)) :
    count ((a, s) :: l) = a * count l := List.prod_cons

theorem count_append (l l' : List (Nat × Nat)) : count (l ++ l') = count l * count l' := by
  unfold count
  rw [List.map_append, List.prod_append]

-- Two neighbours whose strides fit are one.
theorem offset_merge (a b s k : Nat) (l : List (Nat × Nat)) :
    offset ((a, b * s) :: (b, s) :: l) k = offset ((a * b, s) :: l) k := by
  simp only [offset, count_cons]
  have hdiv : k / count l = k / (b * count l) * b + k % (b * count l) / count l := by
    rcases Nat.eq_zero_or_pos (count l) with hl | hl
    · simp [hl]
    rcases Nat.eq_zero_or_pos b with hb | hb
    · simp [hb]
    have hk := Nat.div_add_mod k (b * count l)
    have hsplit : k = k % (b * count l) + k / (b * count l) * b * count l := by
      calc k = b * count l * (k / (b * count l)) + k % (b * count l) := hk.symm
        _ = k % (b * count l) + k / (b * count l) * b * count l := by ring
    calc k / count l = (k % (b * count l) + k / (b * count l) * b * count l) / count l := by
          rw [← hsplit]
      _ = k / (b * count l) * b + k % (b * count l) / count l := by
          rw [Nat.add_mul_div_right _ _ hl, Nat.add_comm]
  have hmod : k % (b * count l) % count l = k % count l := Nat.mod_mul_left_mod k b (count l)
  rw [hmod, hdiv]
  ring

-- Sizes of 1 can be left out.
theorem offset_filter (l : List (Nat × Nat)) {k : Nat} (hk : k < count l) :
    offset (l.filter fun x => x.1 ≠ 1) k = offset l k := by
  have hcount : ∀ l : List (Nat × Nat), count (l.filter fun x => x.1 ≠ 1) = count l := by
    intro l
    induction l with
    | nil => rfl
    | cons x l ih =>
        obtain ⟨a, s⟩ := x
        by_cases ha : a = 1
        · rw [List.filter_cons_of_neg (by simp [ha]), ih, count_cons, ha, Nat.one_mul]
        · rw [List.filter_cons_of_pos (by simp [ha]), count_cons, count_cons, ih]
  induction l generalizing k with
  | nil => rfl
  | cons x l ih =>
      obtain ⟨a, s⟩ := x
      rw [count_cons] at hk
      have hpos : 0 < count l := Nat.pos_of_mul_pos_left (Nat.lt_of_le_of_lt (Nat.zero_le k) hk)
      by_cases ha : a = 1
      · rw [ha, Nat.one_mul] at hk
        rw [List.filter_cons_of_neg (by simp [ha]), ih hk]
        simp only [offset]
        rw [Nat.div_eq_of_lt hk, Nat.mod_eq_of_lt hk, Nat.zero_mul, Nat.zero_add]
      · rw [List.filter_cons_of_pos (by simp [ha])]
        simp only [offset]
        rw [hcount, ih (Nat.mod_lt k hpos)]

theorem offset_append_congr {l l' : List (Nat × Nat)} (hcount : count l = count l')
    (h : ∀ k, offset l k = offset l' k) (pre : List (Nat × Nat)) (k : Nat) :
    offset (pre ++ l) k = offset (pre ++ l') k := by
  induction pre generalizing k with
  | nil => exact h k
  | cons x pre ih =>
      simp only [List.cons_append, offset]
      rw [count_append, count_append, hcount, ih]

theorem offset_append_of_lt {l l' : List (Nat × Nat)} (hcount : count l = count l')
    (h : ∀ k < count l, offset l k = offset l' k) (pre : List (Nat × Nat)) {k : Nat}
    (hk : k < count (pre ++ l)) : offset (pre ++ l) k = offset (pre ++ l') k := by
  induction pre generalizing k with
  | nil => exact h k hk
  | cons x pre ih =>
      obtain ⟨a, s⟩ := x
      rw [List.cons_append, count_cons] at hk
      have hpos : 0 < count (pre ++ l) :=
        Nat.pos_of_mul_pos_left (Nat.lt_of_le_of_lt (Nat.zero_le k) hk)
      have hrest := ih (Nat.mod_lt k hpos)
      simp only [List.cons_append, offset]
      rw [hrest, count_append, count_append, hcount]

theorem count_ones {ones : List (Nat × Nat)} (h : ∀ x ∈ ones, x.1 = 1) (l : List (Nat × Nat)) :
    count (ones ++ l) = count l := by
  induction ones with
  | nil => rfl
  | cons x ones ih =>
      have hx : x.1 = 1 := h x List.mem_cons_self
      rw [List.cons_append, count_cons, hx, Nat.one_mul,
        ih fun y hy => h y (List.mem_cons_of_mem _ hy)]

theorem offset_ones {ones : List (Nat × Nat)} (h : ∀ x ∈ ones, x.1 = 1) {l : List (Nat × Nat)}
    {k : Nat} (hk : k < count l) : offset (ones ++ l) k = offset l k := by
  induction ones with
  | nil => rfl
  | cons x ones ih =>
      have hones : ∀ y ∈ ones, y.1 = 1 := fun y hy => h y (List.mem_cons_of_mem _ hy)
      simp only [List.cons_append, offset]
      rw [count_ones hones, Nat.div_eq_of_lt hk, Nat.mod_eq_of_lt hk, ih hones, Nat.zero_mul,
        Nat.zero_add]

-- The same two neighbours, with sizes of 1 in between.
theorem offset_merge_ones (a b s : Nat) {ones ones' post : List (Nat × Nat)}
    (hones : ∀ x ∈ ones, x.1 = 1) (hones' : ∀ x ∈ ones', x.1 = 1) {k : Nat}
    (hk : k < a * b * count post) :
    offset ((a, b * s) :: ones ++ (b, s) :: post) k =
      offset ((a * b, s) :: ones' ++ (1, s) :: post) k := by
  have hpost : 0 < count post := by
    apply Nat.pos_of_ne_zero
    intro h0
    rw [h0, Nat.mul_zero] at hk
    omega
  have hb : 0 < b := by
    apply Nat.pos_of_ne_zero
    intro h0
    rw [h0, Nat.mul_zero, Nat.zero_mul] at hk
    omega
  have hleft : offset ((a, b * s) :: ones ++ (b, s) :: post) k =
      offset ((a, b * s) :: (b, s) :: post) k := by
    have hmod : k % count ((b, s) :: post) < count ((b, s) :: post) :=
      Nat.mod_lt k (by rw [count_cons]; exact Nat.mul_pos hb hpost)
    simp only [List.cons_append, offset.eq_2 k a]
    rw [count_ones hones, offset_ones hones hmod]
  have hright : offset ((a * b, s) :: ones' ++ (1, s) :: post) k =
      offset ((a * b, s) :: post) k := by
    have hone : ∀ x ∈ ones' ++ [(1, s)], x.1 = 1 := by
      intro x hx
      rcases List.mem_append.mp hx with hx | hx
      · exact hones' x hx
      · rw [List.mem_singleton.mp hx]
    have hsplit : ones' ++ (1, s) :: post = ones' ++ [(1, s)] ++ post := by simp
    simp only [List.cons_append, offset.eq_2 k (a * b)]
    rw [hsplit, count_ones hone, offset_ones hone (Nat.mod_lt k hpost)]
  rw [hleft, hright, offset_merge]

-- The position of a list of indices is the sum of its steps.
theorem offset_ravel {l : List (Nat × Nat)} {is : List Nat}
    (h : InBounds is (l.map Prod.fst)) :
    offset l (ravel (l.map Prod.fst) is) = (List.zipWith (fun i x => i * x.2) is l).sum := by
  induction l generalizing is with
  | nil =>
      cases h
      rfl
  | cons x l ih =>
      obtain ⟨a, s⟩ := x
      cases is with
      | nil => cases h
      | cons i is =>
          obtain ⟨hi, his⟩ := inBounds_cons.mp h
          have hlt : ravel (l.map Prod.fst) is < count l := ravel_lt his
          have hpos : 0 < count l := Nat.lt_of_le_of_lt (Nat.zero_le _) hlt
          rw [List.map_cons, ravel_cons, List.zipWith_cons_cons, List.sum_cons, ← ih his]
          simp only [offset]
          change (i * count l + _) / count l * s + offset l ((i * count l + _) % count l) = _
          rw [Nat.add_comm (i * count l), Nat.add_mul_div_right _ _ hpos, Nat.div_eq_of_lt hlt,
            Nat.zero_add, Nat.add_mul_mod_self_right, Nat.mod_eq_of_lt hlt]

-- The stride of a dimension in row-major order, and the steps of a transposed array.
def stride (dims : List Nat) (d : Nat) : Nat := (dims.drop (d + 1)).prod

def steps (dims perm : List Nat) : List (Nat × Nat) :=
  perm.map fun d => (dims.getD d 1, stride dims d)

theorem stride_append_left {dims : List Nat} {d : Nat} (h : d < dims.length) (dims' : List Nat) :
    stride (dims ++ dims') d = stride dims d * dims'.prod := by
  unfold stride
  rw [List.drop_append_of_le_length h, List.prod_append]

theorem stride_append_right (dims dims' : List Nat) (d : Nat) :
    stride (dims ++ dims') (dims.length + d) = stride dims' d := by
  unfold stride
  rw [Nat.add_assoc, List.drop_length_add_append]

theorem ravel_eq_sum (dims : List Nat) {is : List Nat} (h : is.length = dims.length) :
    ravel dims is = ((List.range dims.length).map fun d => is.getD d 0 * stride dims d).sum := by
  induction dims generalizing is with
  | nil => simp
  | cons a dims ih =>
      cases is with
      | nil => cases h
      | cons i is =>
          rw [ravel_cons, ih (Nat.succ.inj h), List.length_cons, List.range_succ_eq_map,
            List.map_cons, List.sum_cons, List.map_map]
          rfl

theorem steps_sizes (dims perm : List Nat) :
    (steps dims perm).map Prod.fst = perm.map fun d => dims.getD d 1 := by
  unfold steps
  rw [List.map_map]
  rfl

-- A transposed index is read at the index itself.
theorem offset_steps {dims perm : List Nat} (hperm : perm.Perm (List.range dims.length))
    {is : List Nat} (h : InBounds is dims) :
    offset (steps dims perm) (ravel (perm.map fun d => dims.getD d 1)
      (perm.map fun d => is.getD d 0)) = ravel dims is := by
  have hlen : is.length = dims.length := List.Forall₂.length_eq h
  have hlt : ∀ d ∈ perm, d < dims.length := fun d hd => List.mem_range.mp (hperm.mem_iff.mp hd)
  have hin : InBounds (perm.map fun d => is.getD d 0) ((steps dims perm).map Prod.fst) := by
    rw [steps_sizes]
    unfold InBounds
    rw [List.forall₂_map_left_iff, List.forall₂_map_right_iff, List.forall₂_same]
    intro d hd
    have hd' := hlt d hd
    rw [List.getD_eq_getElem _ _ hd', List.getD_eq_getElem _ _ (hlen ▸ hd')]
    exact List.Forall₂.get h (hlen ▸ hd') hd'
  rw [← steps_sizes, offset_ravel hin, ravel_eq_sum dims hlen]
  have hzip : List.zipWith (fun i (x : Nat × Nat) => i * x.2) (perm.map fun d => is.getD d 0)
      (steps dims perm) = perm.map fun d => is.getD d 0 * stride dims d := by
    unfold steps
    rw [List.zipWith_map, List.zipWith_self]
  rw [hzip]
  exact (hperm.map _).sum_eq

-- Every position has indices.
theorem unravel_spec {ds : List Nat} {n : Nat} (h : n < ds.prod) :
    InBounds (unravel ds n) ds ∧ ravel ds (unravel ds n) = n := by
  induction ds generalizing n with
  | nil =>
      rw [List.prod_nil, Nat.lt_one_iff] at h
      subst h
      exact ⟨.nil, rfl⟩
  | cons d ds ih =>
      rw [List.prod_cons] at h
      have hpos : 0 < ds.prod := Nat.pos_of_mul_pos_left (Nat.lt_of_le_of_lt (Nat.zero_le n) h)
      obtain ⟨hin, hravel⟩ := ih (Nat.mod_lt n hpos)
      refine ⟨inBounds_cons.mpr ⟨(Nat.div_lt_iff_lt_mul hpos).mpr h, hin⟩, ?_⟩
      rw [unravel, ravel_cons, hravel, Nat.mul_comm, Nat.div_add_mod]

-- The indices of a list of groups, group by group.
theorem ravel_append {ds is : List Nat} (h : is.length = ds.length) (ds' is' : List Nat) :
    ravel (ds ++ ds') (is ++ is') = ravel ds is * ds'.prod + ravel ds' is' := by
  induction ds generalizing is with
  | nil =>
      rw [List.length_eq_zero_iff.mp h]
      simp
  | cons d ds ih =>
      cases is with
      | nil => cases h
      | cons i is =>
          rw [List.cons_append, List.cons_append, ravel_cons, ravel_cons, List.prod_append,
            ih (Nat.succ.inj h)]
          ring

theorem ravel_flatMap {γ : Type*} (size index : γ → Nat) (groups : List (List γ)) :
    ravel (groups.flatten.map size) (groups.flatten.map index) =
      ravel (groups.map fun g => (g.map size).prod)
        (groups.map fun g => ravel (g.map size) (g.map index)) := by
  induction groups with
  | nil => rfl
  | cons g groups ih =>
      have hprod : (groups.flatten.map size).prod =
          (groups.map fun g => (g.map size).prod).prod := by
        rw [List.map_flatten, List.prod_flatten, List.map_map]
        rfl
      rw [List.flatten_cons, List.map_append, List.map_append, ravel_append (by simp), ih,
        List.map_cons, List.map_cons, ravel_cons, hprod]

end TTXla.Strided

import Mathlib.Algebra.BigOperators.Group.Finset.Basic
import Mathlib.Algebra.BigOperators.Group.List.Basic
import Mathlib.Algebra.Order.Ring.Defs
import Mathlib.Tactic.Ring
import Mathlib.Tactic.Linarith

namespace TTXla

-- A tensor of any rank: its shape, and the element at each list of indices.
structure Tensor (α : Type*) where
  shape : List Nat
  get : List Nat → α

namespace Tensor

section Index

-- The indices stay within the shape.
def InBounds (is shape : List Nat) : Prop := List.Forall₂ (· < ·) is shape

@[simp] theorem inBounds_nil : InBounds [] [] := .nil

@[simp] theorem inBounds_cons {i d : Nat} {is ds : List Nat} :
    InBounds (i :: is) (d :: ds) ↔ i < d ∧ InBounds is ds := List.forall₂_cons

theorem exists_of_inBounds_append {is ds : List Nat} {n : Nat} (h : InBounds is (ds ++ [n])) :
    ∃ pre i, is = pre ++ [i] ∧ InBounds pre ds ∧ i < n := by
  induction ds generalizing is with
  | nil =>
      cases h with
      | cons hi his =>
          cases his
          exact ⟨[], _, rfl, .nil, hi⟩
  | cons d ds ih =>
      cases h with
      | cons hj his =>
          obtain ⟨pre, i, rfl, hpre, hi⟩ := ih his
          exact ⟨_ :: pre, i, rfl, .cons hj hpre, hi⟩

-- The position of an element in row-major order, and the indices of a position.
def ravel : List Nat → List Nat → Nat
  | _ :: ds, i :: is => i * ds.prod + ravel ds is
  | _, _ => 0

def unravel : List Nat → Nat → List Nat
  | [], _ => []
  | _ :: ds, n => n / ds.prod :: unravel ds (n % ds.prod)

@[simp] theorem ravel_nil (is : List Nat) : ravel [] is = 0 := by
  cases is <;> rfl

@[simp] theorem ravel_cons (d i : Nat) (ds is : List Nat) :
    ravel (d :: ds) (i :: is) = i * ds.prod + ravel ds is := rfl

theorem ravel_lt {is ds : List Nat} (h : InBounds is ds) : ravel ds is < ds.prod := by
  induction ds generalizing is with
  | nil => simp
  | cons d ds ih =>
      cases is with
      | nil => cases h
      | cons i is =>
          obtain ⟨hi, his⟩ := inBounds_cons.mp h
          have hrest := ih his
          rw [ravel_cons, List.prod_cons]
          calc i * ds.prod + ravel ds is < i * ds.prod + ds.prod := by omega
            _ = (i + 1) * ds.prod := by ring
            _ ≤ d * ds.prod := Nat.mul_le_mul_right _ hi

theorem unravel_ravel {is ds : List Nat} (h : InBounds is ds) :
    unravel ds (ravel ds is) = is := by
  induction ds generalizing is with
  | nil =>
      cases h
      rfl
  | cons d ds ih =>
      cases is with
      | nil => cases h
      | cons i is =>
          obtain ⟨-, his⟩ := inBounds_cons.mp h
          have hlt := ravel_lt his
          have hpos : 0 < ds.prod := by omega
          rw [ravel_cons, unravel, Nat.add_comm, Nat.add_mul_div_right _ _ hpos,
            Nat.add_mul_mod_self_right, Nat.div_eq_of_lt hlt, Nat.mod_eq_of_lt hlt, Nat.zero_add,
            ih his]

-- The positions of a shape of at least one dimension.
theorem ravel_unravel {ds : List Nat} (h : ds ≠ []) (n : Nat) : ravel ds (unravel ds n) = n := by
  induction ds generalizing n with
  | nil => exact absurd rfl h
  | cons d ds ih =>
      rw [unravel, ravel_cons]
      cases ds with
      | nil => simp
      | cons d' ds =>
          rw [ih (List.cons_ne_nil d' ds), Nat.mul_comm, Nat.div_add_mod]

-- The places of the tokens in a dimension that is split in two.
theorem group_lt {a n q m : Nat} (ha : a < q) (hm : m < n) : a * n + m < q * n := by
  calc a * n + m < a * n + n := by omega
    _ = (a + 1) * n := by ring
    _ ≤ q * n := Nat.mul_le_mul_right _ ha

end Index

section Ops

variable {α β : Type*}

-- Two tensors have the same shape, and the same elements within it.
def Same (t u : Tensor α) : Prop :=
  t.shape = u.shape ∧ ∀ is, InBounds is t.shape → t.get is = u.get is

def full (shape : List Nat) (a : α) : Tensor α := ⟨shape, fun _ => a⟩

def zeros [Zero α] (shape : List Nat) : Tensor α := full shape 0

def ones [One α] (shape : List Nat) : Tensor α := full shape 1

def map (f : α → β) (t : Tensor α) : Tensor β := ⟨t.shape, fun is => f (t.get is)⟩

-- `t.view(shape)`: the elements in the same order.
def view (t : Tensor α) (shape : List Nat) : Tensor α :=
  ⟨shape, fun is => t.get (unravel t.shape (ravel shape is))⟩

-- `t.permute(dims)`: dimension `i` of the result is dimension `dims[i]` of `t`.
def permute (t : Tensor α) (dims : List Nat) : Tensor α where
  shape := dims.map fun d => t.shape.getD d 0
  get := fun is => t.get ((List.range dims.length).map fun d => is.getD (dims.idxOf d) 0)

def unsqueeze (t : Tensor α) (dim : Nat) : Tensor α :=
  ⟨t.shape.insertIdx dim 1, fun is => t.get (is.eraseIdx dim)⟩

-- `t.squeeze(dim)`: a dimension that is not 1 stays.
def squeeze (t : Tensor α) (dim : Nat) : Tensor α :=
  if t.shape[dim]? = some 1 then ⟨t.shape.eraseIdx dim, fun is => t.get (is.insertIdx dim 0)⟩
  else t

-- `t[i]`.
def select (t : Tensor α) (i : Nat) : Tensor α := ⟨t.shape.tail, fun is => t.get (i :: is)⟩

-- `t.repeat(*sizes)`, with a size for each dimension.
def repeats (t : Tensor α) (sizes : List Nat) : Tensor α where
  shape := List.zipWith (· * ·) sizes t.shape
  get := fun is => t.get (List.zipWith (· % ·) is t.shape)

def setLast (is : List Nat) (i : Nat) : List Nat := is.dropLast ++ [i]

def last (is : List Nat) : Nat := is.getLast?.getD 0

-- `t[..., start : start + step * len : step]`.
def slice (t : Tensor α) (start step len : Nat) : Tensor α where
  shape := setLast t.shape len
  get := fun is => t.get (setLast is (start + step * last is))

-- `torch.cat([t, u], dim=-1)`.
def catLast (t u : Tensor α) : Tensor α where
  shape := setLast t.shape (last t.shape + last u.shape)
  get := fun is => if last is < last t.shape then t.get is
    else u.get (setLast is (last is - last t.shape))

-- How an operand is read when it is broadcast: the dimensions are aligned at the right, and
-- those of size 1 are repeated.
def bget (t : Tensor α) (is : List Nat) : α :=
  t.get (List.zipWith (fun i d => if d = 1 then 0 else i) (is.drop (is.length - t.shape.length))
    t.shape)

def bshape (s t : List Nat) : List Nat :=
  let n := max s.length t.length
  List.zipWith (fun a b => if a = 1 then b else a) (List.replicate (n - s.length) 1 ++ s)
    (List.replicate (n - t.length) 1 ++ t)

def zipWith (f : α → α → β) (t u : Tensor α) : Tensor β :=
  ⟨bshape t.shape u.shape, fun is => f (t.bget is) (u.bget is)⟩

instance [Add α] : Add (Tensor α) := ⟨zipWith (· + ·)⟩

instance [Mul α] : Mul (Tensor α) := ⟨zipWith (· * ·)⟩

-- `t.sum(dim)`.
def sum [AddCommMonoid α] (t : Tensor α) (dim : Nat) : Tensor α where
  shape := t.shape.eraseIdx dim
  get := fun is => ∑ i ∈ Finset.range (t.shape.getD dim 0), t.get (is.insertIdx dim i)

-- `torch.matmul`, of operands with at least two dimensions.
def matmul [AddCommMonoid α] [Mul α] (t u : Tensor α) : Tensor α where
  shape := bshape t.shape.dropLast.dropLast u.shape.dropLast.dropLast ++
    [last t.shape.dropLast, last u.shape]
  get := fun is => ∑ k ∈ Finset.range (last t.shape),
    t.bget (setLast is k) * u.bget (setLast is.dropLast k ++ [last is])

-- `t.scatter_(dim=-1, index, src)`: the writes of a row go from left to right.
def scatterLast (t : Tensor α) (index : Tensor Nat) (src : Tensor α) : Tensor α where
  shape := t.shape
  get := fun is => (List.range (last index.shape)).foldl
    (fun a k => if index.get (setLast is k) = last is then src.get (setLast is k) else a)
    (t.get is)

-- `torch.clamp` with both bounds, and with one.
def clamp [LinearOrder α] (lo hi : α) (t : Tensor α) : Tensor α := t.map fun a => min (max a lo) hi

def clampMax [LinearOrder α] (hi : α) (t : Tensor α) : Tensor α := t.map fun a => min a hi

def clampMin [LinearOrder α] (lo : α) (t : Tensor α) : Tensor α := t.map fun a => max a lo

-- `F.one_hot(t, num_classes)`.
def oneHot [Zero α] [One α] (t : Tensor Nat) (num_classes : Nat) : Tensor α where
  shape := t.shape ++ [num_classes]
  get := fun is => if t.get is.dropLast = last is then 1 else 0

-- `t[is] = a`.
def set (t : Tensor α) (is : List Nat) (a : α) : Tensor α :=
  ⟨t.shape, Function.update t.get is a⟩

end Ops

section Lemmas

variable {α β : Type*}

theorem view_shape (t : Tensor α) (shape : List Nat) : (t.view shape).shape = shape := rfl

theorem scatterLast_shape (t : Tensor α) (index : Tensor Nat) (src : Tensor α) :
    (t.scatterLast index src).shape = t.shape := rfl

theorem zeros_shape [Zero α] (shape : List Nat) : (zeros shape : Tensor α).shape = shape := rfl

theorem unsqueeze_shape (t : Tensor α) (dim : Nat) :
    (t.unsqueeze dim).shape = t.shape.insertIdx dim 1 := rfl

theorem sum_shape [AddCommMonoid α] (t : Tensor α) (dim : Nat) :
    (t.sum dim).shape = t.shape.eraseIdx dim := rfl

theorem unsqueeze_get (t : Tensor α) (dim : Nat) (is : List Nat) :
    (t.unsqueeze dim).get is = t.get (is.eraseIdx dim) := rfl

theorem clampMax_get [LinearOrder α] (hi : α) (t : Tensor α) (is : List Nat) :
    (t.clampMax hi).get is = min (t.get is) hi := rfl

theorem sum_get [AddCommMonoid α] (t : Tensor α) (dim : Nat) (is : List Nat) :
    (t.sum dim).get is =
      ∑ i ∈ Finset.range (t.shape.getD dim 0), t.get (is.insertIdx dim i) := rfl

theorem last_append (pre : List Nat) (n : Nat) : last (pre ++ [n]) = n := by
  unfold last
  rw [List.getLast?_concat]
  rfl

theorem setLast_append (pre : List Nat) (n i : Nat) : setLast (pre ++ [n]) i = pre ++ [i] := by
  unfold setLast
  rw [List.dropLast_concat]

-- A view reads the element at the same position.
theorem view_get {t : Tensor α} {dims shape is : List Nat} (js : List Nat) (hdims : t.shape = dims)
    (hjs : InBounds js dims) (h : ravel shape is = ravel dims js) :
    (t.view shape).get is = t.get js := by
  unfold view
  dsimp only
  rw [hdims, h, unravel_ravel hjs]

theorem view_view {t : Tensor α} {shape : List Nat} (h : shape ≠ []) :
    (t.view shape).view shape = t.view shape := by
  unfold view
  congr 1
  funext is
  dsimp only
  rw [ravel_unravel h]

-- An index within a dimension stays where it is when the operand is broadcast.
theorem bcast_of_lt {i d : Nat} (h : i < d) : (if d = 1 then 0 else i) = i := by
  split
  · omega
  · rfl

theorem bget_append (t : Tensor α) (pre : List Nat) {is : List Nat} (h : InBounds is t.shape) :
    t.bget (pre ++ is) = t.get is := by
  have hlen : is.length = t.shape.length := List.Forall₂.length_eq h
  have hdrop : (pre ++ is).drop ((pre ++ is).length - t.shape.length) = is := by
    rw [List.length_append, hlen, Nat.add_sub_cancel, List.drop_left]
  have hzip : ∀ {is ds : List Nat}, InBounds is ds →
      List.zipWith (fun i d => if d = 1 then 0 else i) is ds = is := by
    intro is ds h
    induction h with
    | nil => rfl
    | cons hi _ ih => rw [List.zipWith_cons_cons, bcast_of_lt hi, ih]
  rw [bget, hdrop, hzip h]

theorem bget_eq (t : Tensor α) {is : List Nat} (h : InBounds is t.shape) : t.bget is = t.get is :=
  bget_append t [] h

theorem bshape_self (ds : List Nat) : bshape ds ds = ds := by
  unfold bshape
  simp only [max_self, Nat.sub_self, List.replicate_zero, List.nil_append]
  induction ds with
  | nil => rfl
  | cons d ds ih => rw [List.zipWith_cons_cons, ih, ite_self]

-- A dimension of size 1 takes the size of the other operand.
theorem bdim_one (a : Nat) : (if a = 1 then 1 else a) = a := by
  split
  · omega
  · rfl

theorem mul_get [Mul α] (t u : Tensor α) {is : List Nat} (ht : InBounds is t.shape)
    (hu : InBounds is u.shape) : (t * u).get is = t.get is * u.get is := by
  change t.bget is * u.bget is = _
  rw [bget_eq t ht, bget_eq u hu]

-- A bias has the last dimensions of what it is added to.
theorem add_get [Add α] (t u : Tensor α) (pre is : List Nat)
    (ht : InBounds (pre ++ is) t.shape) (hu : InBounds is u.shape) :
    (t + u).get (pre ++ is) = t.get (pre ++ is) + u.get is := by
  change t.bget (pre ++ is) + u.bget (pre ++ is) = _
  rw [bget_eq t ht, bget_append u pre hu]

-- Without a write to its place, an element stays.
theorem scatterLast_of_ne {t src : Tensor α} {index : Tensor Nat} {is : List Nat}
    (h : ∀ k < last index.shape, index.get (setLast is k) ≠ last is) :
    (t.scatterLast index src).get is = t.get is := by
  unfold scatterLast
  dsimp only
  generalize last index.shape = n at h
  induction n with
  | zero => rfl
  | succ n ih =>
      rw [List.range_succ, List.foldl_append, ih fun k hk => h k (by omega)]
      exact if_neg (h n (Nat.lt_succ_self n))

-- With ones as the source, a row of indices marks the elements that it names.
theorem scatterLast_ones [Zero α] [One α] (shape sshape : List Nat) (index : Tensor Nat)
    (is : List Nat) :
    ((zeros shape : Tensor α).scatterLast index (ones sshape)).get is =
      if ∃ k < last index.shape, index.get (setLast is k) = last is then 1 else 0 := by
  unfold scatterLast
  dsimp only
  generalize last index.shape = n
  induction n with
  | zero => simp [zeros, full]
  | succ n ih =>
      rw [List.range_succ, List.foldl_append, ih]
      simp only [List.foldl_cons, List.foldl_nil]
      by_cases hn : index.get (setLast is n) = last is
      · rw [if_pos hn, if_pos ⟨n, Nat.lt_succ_self n, hn⟩]
        rfl
      · rw [if_neg hn]
        congr 1
        apply propext
        constructor
        · intro h
          obtain ⟨k, hk, he⟩ := h
          exact ⟨k, by omega, he⟩
        · intro h
          obtain ⟨k, hk, he⟩ := h
          refine ⟨k, ?_, he⟩
          have : k ≠ n := by
            intro hkn
            exact hn (hkn ▸ he)
          omega

-- With different indices in a row, each element is written at most once.
theorem scatterLast_zeros [AddCommMonoid α] (shape : List Nat) (index : Tensor Nat)
    (src : Tensor α) (is : List Nat)
    (hdistinct : ∀ k < last index.shape, ∀ k' < last index.shape,
      index.get (setLast is k) = index.get (setLast is k') → k = k') :
    ((zeros shape : Tensor α).scatterLast index src).get is =
      ∑ k ∈ Finset.range (last index.shape),
        if index.get (setLast is k) = last is then src.get (setLast is k) else 0 := by
  unfold scatterLast
  dsimp only
  generalize last index.shape = n at hdistinct ⊢
  induction n with
  | zero => rfl
  | succ n ih =>
      rw [List.range_succ, List.foldl_append, Finset.sum_range_succ,
        ih fun k hk k' hk' => hdistinct k (by omega) k' (by omega)]
      simp only [List.foldl_cons, List.foldl_nil]
      by_cases hn : index.get (setLast is n) = last is
      · rw [if_pos hn, if_pos hn, Finset.sum_eq_zero, zero_add]
        intro k hk
        have hk' := Finset.mem_range.mp hk
        apply if_neg
        intro he
        have := hdistinct k (by omega) n (by omega) (he.trans hn.symm)
        omega
      · rw [if_neg hn, if_neg hn, add_zero]

end Lemmas

end Tensor

end TTXla

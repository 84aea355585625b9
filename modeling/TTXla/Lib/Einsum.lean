import TTXla.Lib.Tensor

-- `torch.einsum` of two operands with different labels, after an ellipsis.
namespace TTXla.Tensor

-- Dimensions that broadcast: aligned at the right, they are equal where both are not 1.
def Broadcasts (s t : List Nat) : Prop :=
  ∀ p ∈ s.reverse.zip t.reverse, p.1 = p.2 ∨ p.1 = 1 ∨ p.2 = 1

instance (s t : List Nat) : Decidable (Broadcasts s t) :=
  inferInstanceAs (Decidable (∀ p ∈ s.reverse.zip t.reverse, p.1 = p.2 ∨ p.1 = 1 ∨ p.2 = 1))

theorem broadcasts_append_self (ds bs : List Nat) : Broadcasts (ds ++ bs) bs := by
  unfold Broadcasts
  rw [List.reverse_append]
  generalize bs.reverse = rs
  induction rs with
  | nil => simp
  | cons r rs ih =>
      rw [List.cons_append, List.zip_cons_cons]
      intro p hp
      obtain rfl | hp := List.mem_cons.mp hp
      · exact .inl rfl
      · exact ih p hp

-- What has the last dimensions of a tensor does not enlarge it.
theorem bshape_append_self (ds bs : List Nat) : bshape (ds ++ bs) bs = ds ++ bs := by
  have hones : ∀ ds : List Nat, List.zipWith (fun a b => if a = 1 then b else a) ds
      (List.replicate ds.length 1) = ds := by
    intro ds
    induction ds with
    | nil => rfl
    | cons d ds ih =>
        rw [List.length_cons, List.replicate_succ, List.zipWith_cons_cons, ih, bdim_one]
  have hself := bshape_self bs
  unfold bshape at hself ⊢
  simp only [max_self, Nat.sub_self, List.replicate_zero, List.nil_append] at hself
  have hmax : max (ds.length + bs.length) bs.length = ds.length + bs.length :=
    max_eq_left (Nat.le_add_left _ _)
  rw [List.length_append, hmax]
  dsimp only
  rw [Nat.sub_self, Nat.add_sub_cancel, List.replicate_zero, List.nil_append]
  rw [List.zipWith_append (by rw [List.length_replicate]), hones, hself]

structure Equation (L : Type*) where
  left : List L
  right : List L
  output : List L

namespace Equation

variable {L α : Type*} [DecidableEq L]

-- The dimensions of an operand that its ellipsis and its labels stand for.
def batch (labels : List L) (t : Tensor α) : List Nat :=
  t.shape.take (t.shape.length - labels.length)

def labelled (labels : List L) (t : Tensor α) : List (L × Nat) :=
  labels.zip (t.shape.drop (t.shape.length - labels.length))

def dims (eq : Equation L) (t u : Tensor α) (l : L) : List Nat :=
  ((labelled eq.left t ++ labelled eq.right u).filter fun x => x.1 = l).map Prod.snd

-- A dimension of size 1 takes the size of the other operand.
def size (eq : Equation L) (t u : Tensor α) (l : L) : Nat :=
  (eq.dims t u l).foldl (fun a b => if a = 1 then b else a) 1

def Fits (eq : Equation L) (t u : Tensor α) : Prop :=
  Broadcasts (batch eq.left t) (batch eq.right u) ∧
    ∀ l ∈ eq.left ++ eq.right, ∀ d ∈ eq.dims t u l, d = 1 ∨ d = eq.size t u l

instance (eq : Equation L) (t u : Tensor α) : Decidable (eq.Fits t u) :=
  inferInstanceAs (Decidable (_ ∧ _))

def summed (eq : Equation L) : List L :=
  (eq.left ++ eq.right).dedup.filter (· ∉ eq.output)

-- The sum over all values of some labels.
def sumOver [AddCommMonoid α] (size : L → Nat) (f : (L → Nat) → α) : List L → (L → Nat) → α
  | [], env => f env
  | l :: ls, env => ∑ i ∈ Finset.range (size l), sumOver size f ls (Function.update env l i)

-- The values that an index gives to the labels of the output.
def assign : List L → List Nat → L → Nat
  | l :: ls, i :: is => Function.update (assign ls is) l i
  | _, _ => fun _ => 0

-- The operands must have a dimension for each label.
def Labels (eq : Equation L) (t u : Tensor α) : Prop :=
  eq.left.length ≤ t.shape.length ∧ eq.right.length ≤ u.shape.length

instance (eq : Equation L) (t u : Tensor α) : Decidable (eq.Labels t u) :=
  inferInstanceAs (Decidable (_ ∧ _))

end Equation

variable {L α : Type*} [DecidableEq L] [AddCommMonoid α] [Mul α]

def einsum (eq : Equation L) (t u : Tensor α) : Option (Tensor α) :=
  if eq.Labels t u ∧ eq.Fits t u then
    some {
      shape := bshape (Equation.batch eq.left t) (Equation.batch eq.right u) ++
        eq.output.map (eq.size t u)
      get := fun is =>
        let n := is.length - eq.output.length
        Equation.sumOver (eq.size t u)
          (fun env => t.bget (is.take n ++ eq.left.map env) *
            u.bget (is.take n ++ eq.right.map env))
          eq.summed (Equation.assign eq.output (is.drop n)) }
  else none

section Lemmas

omit [Mul α] in
theorem sumOver_congr {size size' : L → Nat} (f : (L → Nat) → α) {ls : List L}
    (h : ∀ l ∈ ls, size l = size' l) (env : L → Nat) :
    Equation.sumOver size f ls env = Equation.sumOver size' f ls env := by
  induction ls generalizing env with
  | nil => rfl
  | cons l ls ih =>
      rw [Equation.sumOver, Equation.sumOver, h l List.mem_cons_self]
      exact Finset.sum_congr rfl fun i _ =>
        ih (fun l' hl' => h l' (List.mem_cons_of_mem l hl')) _

omit [DecidableEq L] [AddCommMonoid α] [Mul α] in
theorem batch_of_shape {labels : List L} {t : Tensor α} {as : List Nat} {sizes : L → Nat}
    (ht : t.shape = as ++ labels.map sizes) : Equation.batch labels t = as := by
  unfold Equation.batch
  rw [ht, List.length_append, List.length_map, Nat.add_sub_cancel, List.take_left]

omit [DecidableEq L] [AddCommMonoid α] [Mul α] in
theorem labelled_of_shape {labels : List L} {t : Tensor α} {as : List Nat} {sizes : L → Nat}
    (ht : t.shape = as ++ labels.map sizes) :
    Equation.labelled labels t = labels.map fun l => (l, sizes l) := by
  unfold Equation.labelled
  rw [ht, List.length_append, List.length_map, Nat.add_sub_cancel, List.drop_left]
  clear ht
  induction labels with
  | nil => rfl
  | cons l labels ih => rw [List.map_cons, List.map_cons, List.zip_cons_cons, ih]

variable {eq : Equation L} {t u : Tensor α} {as bs : List Nat} {sizes : L → Nat}

omit [AddCommMonoid α] [Mul α] in
theorem mem_dims (ht : t.shape = as ++ eq.left.map sizes) (hu : u.shape = bs ++ eq.right.map sizes)
    {l : L} {d : Nat} : d ∈ eq.dims t u l ↔ l ∈ eq.left ++ eq.right ∧ d = sizes l := by
  unfold Equation.dims
  rw [labelled_of_shape ht, labelled_of_shape hu, ← List.map_append]
  simp only [List.mem_map, List.mem_filter, decide_eq_true_eq]
  constructor
  · rintro ⟨_, ⟨⟨l', hl', rfl⟩, rfl⟩, rfl⟩
    exact ⟨hl', rfl⟩
  · rintro ⟨hl, rfl⟩
    exact ⟨_, ⟨⟨l, hl, rfl⟩, rfl⟩, rfl⟩

-- Equal sizes broadcast to themselves.
theorem foldl_of_forall_eq {s : Nat} {ds : List Nat} (h : ∀ d ∈ ds, d = s) (hne : ds ≠ []) :
    ds.foldl (fun a b => if a = 1 then b else a) 1 = s := by
  have hstay : ∀ ds : List Nat, (∀ d ∈ ds, d = s) →
      ds.foldl (fun a b => if a = 1 then b else a) s = s := by
    intro ds h
    induction ds with
    | nil => rfl
    | cons d ds ih =>
        rw [List.foldl_cons, h d List.mem_cons_self, ite_self]
        exact ih fun d' hd' => h d' (List.mem_cons_of_mem d hd')
  cases ds with
  | nil => exact absurd rfl hne
  | cons d ds =>
      rw [List.foldl_cons, if_pos rfl, h d List.mem_cons_self]
      exact hstay ds fun d' hd' => h d' (List.mem_cons_of_mem d hd')

omit [AddCommMonoid α] [Mul α] in
theorem size_of_shape (ht : t.shape = as ++ eq.left.map sizes)
    (hu : u.shape = bs ++ eq.right.map sizes) {l : L} (hl : l ∈ eq.left ++ eq.right) :
    eq.size t u l = sizes l :=
  foldl_of_forall_eq (fun _ hd => ((mem_dims ht hu).mp hd).2)
    (List.ne_nil_of_mem ((mem_dims ht hu).mpr ⟨hl, rfl⟩))

-- When a label has the same size wherever it stands, the ellipses alone broadcast.
theorem einsum_of_shape (eq : Equation L) (sizes : L → Nat)
    (ht : t.shape = as ++ eq.left.map sizes) (hu : u.shape = bs ++ eq.right.map sizes)
    (hbatch : Broadcasts as bs)
    (houtput : ∀ l ∈ eq.output, l ∈ eq.left ++ eq.right) :
    ∃ out, einsum eq t u = some out ∧ out.shape = bshape as bs ++ eq.output.map sizes ∧
      ∀ pre is, is.length = eq.output.length → out.get (pre ++ is) =
        Equation.sumOver sizes (fun env => t.bget (pre ++ eq.left.map env) *
          u.bget (pre ++ eq.right.map env)) eq.summed (Equation.assign eq.output is) := by
  have hlabels : eq.Labels t u := by
    unfold Equation.Labels
    rw [ht, hu]
    simp
  have hfits : eq.Fits t u := by
    refine ⟨?_, fun l hl d hd => .inr ?_⟩
    · rwa [batch_of_shape ht, batch_of_shape hu]
    · rw [size_of_shape ht hu hl, ((mem_dims ht hu).mp hd).2]
  unfold einsum
  rw [if_pos ⟨hlabels, hfits⟩]
  refine ⟨_, rfl, ?_, fun pre is his => ?_⟩
  · dsimp only
    rw [batch_of_shape ht, batch_of_shape hu]
    exact congrArg (_ ++ ·) (List.map_congr_left fun l hl => size_of_shape ht hu (houtput l hl))
  · dsimp only
    rw [List.length_append, his, Nat.add_sub_cancel, List.take_left, List.drop_left]
    refine sumOver_congr _ (fun l hl => size_of_shape ht hu ?_) _
    exact List.mem_dedup.mp (List.mem_of_mem_filter hl)

end Lemmas

end TTXla.Tensor

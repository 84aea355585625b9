import TTXla.Lib.Tensor.Flat
import TTXla.Lib.Excepts

-- The decomposition of `masked_scatter`.
namespace TTXla.TTTorch.Decompositions

open Tensor

variable {α : Type}

inductive TorchError where
  -- the shapes cannot be broadcast
  | RuntimeError
  | IndexError
deriving DecidableEq

def broadcast_tensors {β : Type} (t : Tensor α) (u : Tensor β) :
    Except TorchError (Tensor α × Tensor β) :=
  if Broadcastable t.shape u.shape then
    .ok (t.broadcast_to (bshape t.shape u.shape), u.broadcast_to (bshape t.shape u.shape))
  else .error .RuntimeError

-- `torch.clamp`: with bounds that cross, the upper one.
def clamp (t : Tensor Int) (lo hi : Int) : Tensor Int := t.map fun x => min (max x lo) hi

def masked_scatter (data : Tensor α) (mask : Tensor Bool) (source : Tensor α) :
    Except TorchError (Tensor α) := do
  let (mask, data) ← broadcast_tensors mask data
  let mask_f := mask.flatten
  let data_flat := data.flatten
  let source_flat := source.flatten
  let mask_i : Tensor Int := mask_f.map fun b => if b then 1 else 0
  let source_idx := mask_i.cumsum.map fun x => x - 1
  let source_idx := clamp source_idx 0 (source_flat.numel - 1)
  let gathered ← Excepts.get (source_flat.take source_idx) .IndexError
  let result_flat : Tensor α :=
    ⟨data_flat.shape, fun is => if mask_f.get is then gathered.get is else data_flat.get is⟩
  return result_flat.view data.shape

section Meaning

-- Whether the mask holds at a position of the broadcast shape, in row-major order.
def holds (mask : Tensor Bool) (shape : List Nat) (p : Nat) : Bool :=
  mask.bget (unravel shape p)

-- How many of the first `p` positions the mask holds at.
def rank (mask : Tensor Bool) (shape : List Nat) (p : Nat) : Nat :=
  (List.range p).countP (holds mask shape)

-- Where the mask holds, the elements of the source come one after another; the other positions
-- keep their data.
structure Scatters (data : Tensor α) (mask : Tensor Bool) (source r : Tensor α) : Prop where
  shape : r.shape = bshape mask.shape data.shape
  get : ∀ is, InBounds is r.shape → r.get is = if mask.bget is
    then source.get (unravel source.shape (rank mask r.shape (ravel r.shape is)))
    else data.bget is

end Meaning

section Ranks

variable {mask : Tensor Bool} {shape : List Nat}

theorem rank_succ (p : Nat) :
    rank mask shape (p + 1) = rank mask shape p + if holds mask shape p then 1 else 0 := by
  unfold rank
  rw [List.range_succ, List.countP_append, List.countP_singleton]

theorem rank_mono {p q : Nat} (h : p ≤ q) : rank mask shape p ≤ rank mask shape q := by
  induction q with
  | zero => rw [Nat.le_zero.mp h]
  | succ q ih =>
      rw [rank_succ]
      obtain hle | rfl := Nat.le_or_eq_of_le_succ h
      · have := ih hle
        omega
      · rw [rank_succ]

-- The place of the source that a position reads.
def source_place (mask : Tensor Bool) (shape : List Nat) (n p : Nat) : Nat :=
  min (rank mask shape (p + 1) - 1) (n - 1)

-- The clamp moves nothing where the mask holds.
theorem source_place_of_holds {n p : Nat} (hp : p < shape.prod) (hholds : holds mask shape p)
    (hn : rank mask shape shape.prod ≤ n) :
    source_place mask shape n p = rank mask shape p := by
  have hsucc : rank mask shape (p + 1) = _ := rank_succ p
  have hle : rank mask shape (p + 1) ≤ rank mask shape shape.prod := rank_mono hp
  rw [if_pos hholds] at hsucc
  unfold source_place
  omega

end Ranks

section Decomposition

variable {data source : Tensor α} {mask : Tensor Bool}
  (hshapes : Broadcastable mask.shape data.shape)

-- The indices after the clamp, in the shape of the broadcast tensors.
def source_indices (mask : Tensor Bool) (shape : List Nat) (n : Nat) : Tensor Int :=
  clamp ((((mask.broadcast_to shape).flatten.map fun b => if b then (1 : Int) else 0).cumsum).map
    fun x => x - 1) 0 (n - 1)

theorem source_indices_get (shape : List Nat) (n p : Nat) :
    (source_indices mask shape n).get [p] =
      min (max ((rank mask shape (p + 1) : Int) - 1) 0) (n - 1) := by
  have hcount := cumsum_count (mask.broadcast_to shape).flatten
    (p := holds mask shape) (fun j => flatten_get _ j) p
  unfold source_indices clamp
  simp only [map] at hcount ⊢
  rw [hcount]
  rfl

include hshapes in
theorem masked_scatter_eq (shape : List Nat) (hshape : bshape mask.shape data.shape = shape) :
    masked_scatter data mask source =
      (Excepts.get (source.flatten.take (source_indices mask shape source.numel))
        .IndexError).map fun gathered => view ⟨[shape.prod], fun is =>
          if (mask.broadcast_to shape).flatten.get is then gathered.get is
          else (data.broadcast_to shape).flatten.get is⟩ shape := by
  subst hshape
  unfold masked_scatter broadcast_tensors
  rw [if_pos hshapes]
  have hnumel : source.flatten.numel = source.numel := List.prod_singleton
  rw [← hnumel]
  change (Excepts.get (source.flatten.take (source_indices mask _ source.flatten.numel))
    TorchError.IndexError >>= _) = _
  cases Excepts.get (source.flatten.take (source_indices mask _ source.flatten.numel))
    TorchError.IndexError <;> rfl

include hshapes in
theorem masked_scatter_raises {shape : List Nat} (hshape : bshape mask.shape data.shape = shape)
    (hpos : 0 < shape.prod) (hsource : source.numel = 0) :
    masked_scatter data mask source = .error .IndexError := by
  have hnone : source.flatten.take (source_indices mask shape source.numel) = none := by
    refine take_eq_none rfl hpos ?_
    rw [source_indices_get, flatten_shape, hsource]
    simp only [List.headD_cons]
    omega
  rw [masked_scatter_eq hshapes shape hshape, hnone]
  rfl

include hshapes in
theorem masked_scatter_scatters {shape : List Nat} (hshape : bshape mask.shape data.shape = shape)
    (hsource : rank mask shape shape.prod ≤ source.numel)
    (hnonempty : source.numel ≠ 0 ∨ shape.prod = 0) :
    ∃ r, masked_scatter data mask source = .ok r ∧ Scatters data mask source r := by
  obtain ⟨gathered, htake, -, hgathered⟩ := take_eq_some (t := source.flatten) (n := source.numel)
    (m := shape.prod) (f := source_place mask shape source.numel) rfl
    (show (source_indices mask shape source.numel).shape = [shape.prod] from rfl)
    (fun p hp => by
      rw [source_indices_get]
      unfold source_place
      omega)
    (fun p hp => by
      unfold source_place
      omega)
  refine ⟨_, by rw [masked_scatter_eq hshapes shape hshape, htake]; rfl, hshape.symm,
    fun is his => ?_⟩
  have hlt : ravel shape is < shape.prod := ravel_lt his
  have hunravel : unravel shape (ravel shape is) = is := unravel_ravel his
  have hmask : (mask.broadcast_to shape).flatten.get [ravel shape is] = mask.bget is := by
    rw [flatten_get]
    exact congrArg mask.bget hunravel
  have hdata : (data.broadcast_to shape).flatten.get [ravel shape is] = data.bget is := by
    rw [flatten_get]
    exact congrArg data.bget hunravel
  rw [view_flat_get rfl]
  dsimp only
  rw [hmask, hdata]
  by_cases hholds : mask.bget is
  · have hrank : holds mask shape (ravel shape is) := by
      unfold holds
      rwa [hunravel]
    rw [if_pos hholds, if_pos hholds, hgathered _ hlt, source_place_of_holds hlt hrank hsource,
      flatten_get]
    rfl
  · rw [if_neg hholds, if_neg hholds]

-- The clamp leaves no index of an empty source, and none is needed for an empty tensor.
include hshapes in
theorem masked_scatter_iff
    (hsource : rank mask (bshape mask.shape data.shape) (bshape mask.shape data.shape).prod ≤
      source.numel) :
    (∃ r, masked_scatter data mask source = .ok r ∧ Scatters data mask source r) ↔
      source.numel ≠ 0 ∨ (bshape mask.shape data.shape).prod = 0 := by
  constructor
  · rintro ⟨r, hr, -⟩
    by_contra h
    obtain ⟨hempty, hprod⟩ := not_or.mp h
    rw [masked_scatter_raises hshapes rfl (Nat.pos_of_ne_zero hprod) (not_not.mp hempty)] at hr
    cases hr
  · exact masked_scatter_scatters hshapes rfl hsource

end Decomposition

section Examples

-- Two of three elements are replaced.
theorem two_of_three : ∃ r,
    masked_scatter (⟨[3], fun is => is.headD 0⟩ : Tensor Nat) ⟨[3], fun is => is.headD 0 ≠ 1⟩
      ⟨[2], fun is => 7 + is.headD 0⟩ = .ok r ∧
    Scatters (⟨[3], fun is => is.headD 0⟩ : Tensor Nat) ⟨[3], fun is => is.headD 0 ≠ 1⟩
      ⟨[2], fun is => 7 + is.headD 0⟩ r :=
  (masked_scatter_iff (by decide) (by decide)).mpr (.inl (by decide))

-- An empty source, and a mask that holds nowhere.
theorem empty_source_raises :
    ¬∀ (data : Tensor Nat) (mask : Tensor Bool) (source : Tensor Nat),
      Broadcastable mask.shape data.shape →
      rank mask (bshape mask.shape data.shape) (bshape mask.shape data.shape).prod ≤
        source.numel →
      ∃ r, masked_scatter data mask source = .ok r ∧ Scatters data mask source r := by
  intro h
  obtain ⟨r, hr, -⟩ := h (zeros [1]) ⟨[1], fun _ => false⟩ (zeros [0]) (by decide) (by decide)
  rw [masked_scatter_raises (by decide) rfl (by decide) rfl] at hr
  cases hr

end Examples

end TTXla.TTTorch.Decompositions

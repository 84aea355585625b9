import TTXla.Lib.Strided
import Mathlib.Data.Fintype.EquivFin

-- Shardings over a transposed iota, and their text.
namespace TTXla.PJRT.CleanForXla

open Tensor Strided

-- `iota(n).reshape(dims).transpose(perm)`, for dims that multiply to `n`, read in order.
structure Iota (dims perm : List Nat) : Prop where
  pos : ∀ d ∈ dims, 0 < d
  perm : perm.Perm (List.range dims.length)

def device_order (dims perm : List Nat) : List Nat :=
  (List.range dims.prod).map (offset (steps dims perm))

inductive HloSharding where
  | replicated
  | tiled (tile_dims iota_dims perm : List Nat) (last_tile_dim_replicate : Bool)
deriving DecidableEq

namespace HloSharding

-- The number of tiles of every dimension.
def tile_counts (rank : Nat) : HloSharding → List Nat
  | replicated => List.replicate rank 1
  | tiled tile_dims _ _ last => if last then tile_dims.dropLast else tile_dims

-- The devices are laid out over the tiles in their order. The last dimension of the tiles may
-- be one of copies.
def Holds (rank : Nat) : HloSharding → Nat → List Nat → Prop
  | replicated, _, tile => tile = List.replicate rank 0
  | tiled tile_dims iota_dims perm last, device, tile =>
      ∃ is, InBounds is tile_dims ∧
        (device_order iota_dims perm)[ravel tile_dims is]? = some device ∧
          tile = if last then is.dropLast else is

-- The dims multiply to the number of devices.
def Covers (device_count : Nat) : HloSharding → Prop
  | replicated => True
  | tiled tile_dims iota_dims _ _ => tile_dims.prod = device_count ∧ iota_dims.prod = device_count

-- As many devices as positions: where every device is held, nothing else is.
theorem held_only {n : Nat} {order dims : List Nat} {index : Nat → List Nat}
    (hprod : dims.prod = n) (hin : ∀ d < n, InBounds (index d) dims)
    (hheld : ∀ d < n, order[ravel dims (index d)]? = some d) {device : Nat} {is : List Nat}
    (his : InBounds is dims) (hdevice : order[ravel dims is]? = some device) :
    is = index device := by
  have hlt : ∀ d < n, ravel dims (index d) < n := fun d hd => hprod ▸ ravel_lt (hin d hd)
  let position : Fin n → Fin n := fun d => ⟨ravel dims (index d), hlt d d.isLt⟩
  have hinjective : Function.Injective position := by
    intro d d' heq
    have hd := hheld d d.isLt
    have hd' := hheld d' d'.isLt
    rw [Fin.mk.inj heq, hd'] at hd
    exact Fin.ext (Option.some.inj hd).symm
  obtain ⟨d, hd⟩ := Finite.surjective_of_injective hinjective
    ⟨ravel dims is, hprod ▸ ravel_lt his⟩
  have hposition : ravel dims (index d) = ravel dims is := Fin.mk.inj hd
  have hown := hheld d d.isLt
  rw [hposition, hdevice] at hown
  rw [Option.some.inj hown, ← unravel_ravel (hin d d.isLt), hposition, unravel_ravel his]

end HloSharding

namespace Syntax

-- A decimal number, and numbers between commas.
def number (text : List Char) : Option Nat :=
  if text ≠ [] ∧ text.all Char.isDigit then some (Nat.ofDigitChars 10 text 0) else none

def numbers (text : List Char) : Option (List Nat) := (text.splitOn ',').mapM number

-- What follows a text, and what stands before and after a character.
def expect (text : String) (chars : List Char) : Option (List Char) :=
  if text.toList <+: chars then some (chars.drop text.length) else none

def up_to (c : Char) (chars : List Char) : Option (List Char × List Char) :=
  match chars.dropWhile (· ≠ c) with
  | _ :: rest => some (chars.takeWhile (· ≠ c), rest)
  | [] => none

-- One dimension is not transposed, and more than one have to be.
def transpose (iota_dims : List Nat) (chars : List Char) : Option (List Nat × List Char) :=
  if iota_dims.length = 1 then some ([0], chars)
  else do
    let chars ← expect "T(" chars
    let (perm, chars) ← up_to ')' chars
    let perm ← numbers perm
    return (perm, chars)

def last_tile_dim (chars : List Char) : Option Bool :=
  if chars = "\x7d".toList then some false
  else if chars = " last_tile_dim_replicate\x7d".toList then some true
  else none

-- The text of a sharding in its second version: the tiles and the iota are of the same size.
def parse (text : String) : Option HloSharding :=
  if text = "\x7breplicated\x7d" then some .replicated
  else do
    let chars ← expect "\x7bdevices=[" text.toList
    let (tile_dims, chars) ← up_to ']' chars
    let tile_dims ← numbers tile_dims
    let chars ← expect "<=[" chars
    let (iota_dims, chars) ← up_to ']' chars
    let iota_dims ← numbers iota_dims
    let (perm, chars) ← transpose iota_dims chars
    let last ← last_tile_dim chars
    if (∀ d ∈ tile_dims, 0 < d) ∧ (∀ d ∈ iota_dims, 0 < d) ∧
        tile_dims.prod = iota_dims.prod ∧ perm.Perm (List.range iota_dims.length) then
      some (.tiled tile_dims iota_dims perm last)
    else none

theorem number_toString (n : Nat) : number (toString n).toList = some n := by
  have htext : (toString n).toList = Nat.toDigits 10 n := Nat.toList_repr
  have hdigits : (Nat.toDigits 10 n).all Char.isDigit := by
    rw [List.all_eq_true]
    intro c hc
    exact Nat.isDigit_of_mem_toDigits (by omega) (by omega) hc
  unfold number
  rw [htext, if_pos ⟨Nat.toDigits_ne_nil, hdigits⟩, Nat.ofDigitChars_ten_toDigits]

theorem not_mem_toString {c : Char} (hc : c.isDigit = false) (n : Nat) :
    c ∉ (toString n).toList := by
  intro h
  have htext : (toString n).toList = Nat.toDigits 10 n := Nat.toList_repr
  rw [htext] at h
  have hdigit := Nat.isDigit_of_mem_toDigits (by omega) (by omega) h
  rw [hc] at hdigit
  cases hdigit

theorem expect_append (text : String) (chars : List Char) :
    expect text (text.toList ++ chars) = some chars := by
  unfold expect
  rw [if_pos (List.prefix_append _ _), ← String.length_toList, List.drop_left]

theorem up_to_append {c : Char} {text : List Char} (h : c ∉ text) (chars : List Char) :
    up_to c (text ++ c :: chars) = some (text, chars) := by
  have hall : ∀ x ∈ text, decide (x ≠ c) = true := by
    intro x hx
    apply decide_eq_true
    rintro rfl
    exact h hx
  unfold up_to
  rw [List.dropWhile_append_of_pos hall, List.takeWhile_append_of_pos hall]
  simp

end Syntax

end TTXla.PJRT.CleanForXla

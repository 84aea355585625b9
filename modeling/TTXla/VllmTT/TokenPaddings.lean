import TTXla.Lib.Bisect
import TTXla.VllmTT.PrepareInputs.Lemmas
import Mathlib.Data.Int.Bitwise
import Mathlib.Data.Nat.Size

-- The token paddings of any configuration, whose numbers may be negative, and the lookup.
namespace TTXla.VllmTT.TokenPaddings

open Bisect (bisect_left)

-- `int.bit_length`.
def bit_length (n : Int) : Nat := n.natAbs.size

def adjust_min_token (min_token_size : Int) : Int :=
  if Int.land min_token_size (min_token_size - 1) = 0 ∧ 32 ≤ min_token_size then min_token_size
  else if 32 < min_token_size then 2 ^ bit_length (min_token_size - 1)
  else 32

-- `while True`; there is no list as long as the loop goes on.
def padding_loop (max_token_size : Int) : Nat → Int → List Int → Option (List Int)
  | 0, _, _ => none
  | fuel + 1, num, paddings =>
      if max_token_size ≤ num then some (paddings ++ [num])
      else padding_loop max_token_size fuel (num * 2) (paddings ++ [num])

def get_token_paddings (fuel : Nat) (min_token_size max_token_size : Int) : Option (List Int) :=
  padding_loop max_token_size fuel (adjust_min_token min_token_size) [1]

-- `none` when the assertion fails.
def get_padded_token_len (paddings : List Int) (x : Int) : Option Int := do
  let index ← bisect_left paddings x
  guard (index < paddings.length)
  paddings[index]?

theorem size_eq_log2 {n : Nat} (hn : n ≠ 0) : n.size = Nat.log2 n + 1 := by
  have hlow := Nat.log2_self_le hn
  have hhigh := @Nat.lt_log2_self n
  have hlt : Nat.log2 n < n.size := Nat.lt_size.mpr hlow
  have hle : n.size ≤ Nat.log2 n + 1 := Nat.size_le.mpr hhigh
  omega

-- A minimum below zero is adjusted as zero is.
theorem adjust_min_token_eq (min_token_size : Int) :
    adjust_min_token min_token_size = (VllmTT.adjust_min_token min_token_size.toNat : Int) := by
  unfold adjust_min_token VllmTT.adjust_min_token
  by_cases hge : 32 ≤ min_token_size
  · obtain ⟨m, rfl⟩ := Int.eq_ofNat_of_zero_le (show 0 ≤ min_token_size by omega)
    have hpred : (m : Int) - 1 = ((m - 1 : Nat) : Int) := by omega
    have hland : Int.land m (m - 1 : Nat) = ((m &&& (m - 1) : Nat) : Int) := rfl
    have hlength : bit_length ((m - 1 : Nat) : Int) = Nat.log2 (m - 1) + 1 :=
      size_eq_log2 (by omega)
    have hpower : ((m &&& (m - 1) : Nat) : Int) = 0 ∧ (32 : Int) ≤ m ↔
        m &&& (m - 1) = 0 ∧ 32 ≤ m := by omega
    have hlt : (32 : Int) < m ↔ 32 < m := by omega
    rw [hpred, hland, hlength, Int.toNat_natCast, Nat.shiftLeft_eq, one_mul]
    simp only [hpower, hlt, Nat.cast_ite, Nat.cast_pow, Nat.cast_ofNat]
  · rw [if_neg (by omega), if_neg (by omega), if_neg (by omega), if_neg (by omega)]
    rfl

-- The loop ends after as many rounds as it takes to reach the maximum by steps of one.
theorem padding_loop_eq {max_token_size : Int} {fuel num : Nat} {paddings : List Int}
    (hnum : 0 < num) (hfuel : max_token_size.toNat ≤ num + fuel) {n : Nat} (hn : fuel < n) :
    padding_loop max_token_size n num paddings =
      some (paddings ++ (doublings fuel num max_token_size.toNat).map Nat.cast) := by
  induction fuel generalizing num paddings n with
  | zero =>
      obtain ⟨n, rfl⟩ := Nat.exists_eq_succ_of_ne_zero (show n ≠ 0 by omega)
      rw [padding_loop, if_pos (by omega)]
      rfl
  | succ fuel ih =>
      obtain ⟨n, rfl⟩ := Nat.exists_eq_succ_of_ne_zero (show n ≠ 0 by omega)
      rw [padding_loop, doublings]
      by_cases hle : max_token_size ≤ num
      · rw [if_pos hle, if_pos (by omega)]
        rfl
      · have hdouble : (num : Int) * 2 = ((num * 2 : Nat) : Int) := by omega
        rw [if_neg hle, if_neg (by omega), hdouble, ih (by omega) (by omega) (by omega),
          List.map_cons, List.append_assoc]
        rfl

theorem get_token_paddings_eq (min_token_size max_token_size : Int) {fuel : Nat}
    (hfuel : max_token_size.toNat < fuel) :
    get_token_paddings fuel min_token_size max_token_size =
      some ((VllmTT.get_token_paddings min_token_size.toNat max_token_size.toNat).map
        Nat.cast) := by
  have hge := VllmTT.adjust_min_token_ge min_token_size.toNat
  unfold get_token_paddings
  rw [adjust_min_token_eq, padding_loop_eq (by omega) (Nat.le_add_left _ _) hfuel]
  rfl

-- The loop ends, its list ascends to a number that covers the maximum, and each length up to the
-- maximum is padded to the least number of the list that it fits into.
theorem token_paddings_cover (min_token_size max_token_size : Int) :
    ∃ fuel paddings,
      (∀ n, fuel ≤ n → get_token_paddings n min_token_size max_token_size = some paddings) ∧
      paddings.Pairwise (· < ·) ∧
      (∃ last, paddings.getLast? = some last ∧ max_token_size ≤ last) ∧
      ∀ x, 1 ≤ x → x ≤ max_token_size → ∃ p, get_padded_token_len paddings x = some p ∧
        IsLeast {q | q ∈ paddings ∧ x ≤ q} p := by
  have hascending := get_token_paddings_ascending min_token_size.toNat max_token_size.toNat
  have hcovers := get_token_paddings_covers min_token_size.toNat max_token_size.toNat
  have heq := @get_token_paddings_eq min_token_size max_token_size
  have hne : VllmTT.get_token_paddings min_token_size.toNat max_token_size.toNat ≠ [] :=
    List.cons_ne_nil _ _
  generalize VllmTT.get_token_paddings min_token_size.toNat max_token_size.toNat = paddings at *
  have hcast : (paddings.map (Nat.cast : Nat → Int)).Pairwise (· < ·) :=
    List.pairwise_map.mpr (hascending.imp Int.ofNat_lt.mpr)
  have hlast : ∃ last, (paddings.map (Nat.cast : Nat → Int)).getLast? = some last ∧
      max_token_size ≤ last := by
    have hget := List.getLast?_eq_some_getLast hne
    rw [List.getLastD_eq_getLast?, hget, Option.getD_some] at hcovers
    refine ⟨(paddings.getLast hne : Nat), ?_, by omega⟩
    rw [List.getLast?_map, hget, Option.map_some]
  refine ⟨max_token_size.toNat + 1, _, fun n hn => heq hn, hcast, hlast, fun x _ hx => ?_⟩
  obtain ⟨last, hlast, hmax⟩ := hlast
  obtain ⟨i, p, hi, hp, hmem, hxp, hleast⟩ := Bisect.bisect_left_least hcast
    ⟨last, List.mem_of_getLast? hlast, Int.le_trans hx hmax⟩
  obtain ⟨hlt, -⟩ := List.getElem?_eq_some_iff.mp hp
  refine ⟨p, ?_, ⟨hmem, hxp⟩, fun q hq => hleast q hq.1 hq.2⟩
  unfold get_padded_token_len
  simp only [hi, Option.bind_eq_bind, Option.bind_some,
    (Options.guard_eq_some (u := ())).mpr hlt, hp]

end TTXla.VllmTT.TokenPaddings

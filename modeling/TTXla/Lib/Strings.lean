import TTXla.Lib.Decimal
import TTXla.Lib.Options
import Mathlib.Data.List.DropRight
import Mathlib.Data.List.Infix

-- Texts with the operations that Python has on them.
namespace TTXla.Strings

abbrev Text := List Char

def is_space (c : Char) : Bool :=
  let n := c.toNat
  (9 ≤ n && n ≤ 13) || (28 ≤ n && n ≤ 32) || n = 0x85 || n = 0xa0 || n = 0x1680 ||
    (0x2000 ≤ n && n ≤ 0x200a) || n = 0x2028 || n = 0x2029 || n = 0x202f || n = 0x205f || n = 0x3000

def lstrip (s : Text) : Text := s.dropWhile is_space

def strip (s : Text) : Text := (lstrip s).rdropWhile is_space

-- `s.split()`, the words between runs of white space.
def words (s : Text) : List Text := (s.splitOnP is_space).filter (· ≠ [])

-- `s.replace(pattern, "")` for a pattern that is not empty; `skip` characters are left to drop.
def remove_from (pattern : Text) : Nat → Text → Text
  | _, [] => []
  | skip + 1, _ :: s => remove_from pattern skip s
  | 0, c :: s =>
      if pattern.isPrefixOf (c :: s) then remove_from pattern (pattern.length - 1) s
      else c :: remove_from pattern 0 s

def remove (pattern s : Text) : Text := remove_from pattern 0 s

section Pieces

theorem mem_of_mem_splitOn {s piece : Text} {a c : Char} (hpiece : piece ∈ s.splitOn a)
    (hc : c ∈ piece) : c ∈ s ∧ c ≠ a := by
  induction s generalizing piece with
  | nil =>
      rw [List.splitOn_nil, List.mem_singleton] at hpiece
      exact absurd (hpiece ▸ hc) List.not_mem_nil
  | cons x s ih =>
      rw [List.splitOn_cons_eq_if_modifyHead] at hpiece
      split_ifs at hpiece with hx
      · obtain rfl | hpiece := List.mem_cons.mp hpiece
        · exact absurd hc List.not_mem_nil
        · exact (ih hpiece hc).imp_left (List.mem_cons_of_mem _)
      · cases hsplit : s.splitOn a with
        | nil => exact absurd hsplit (List.splitOn_ne_nil a s)
        | cons head tail =>
            rw [hsplit] at ih hpiece
            obtain rfl | hpiece := List.mem_cons.mp hpiece
            · obtain rfl | hc := List.mem_cons.mp hc
              · exact ⟨List.mem_cons_self, fun heq => hx (beq_iff_eq.mpr heq)⟩
              · exact (ih List.mem_cons_self hc).imp_left (List.mem_cons_of_mem _)
            · exact (ih (List.mem_cons_of_mem _ hpiece) hc).imp_left (List.mem_cons_of_mem _)

theorem getLast?_words {s word : Text} {c : Char} (hc : is_space c = true) (hne : word ≠ [])
    (hword : ∀ x ∈ word, is_space x = false) : (words (s ++ c :: word)).getLast? = some word := by
  rw [words, List.splitOnP_append_cons _ _ hc, List.splitOnP_eq_singleton hword,
    List.filter_append, List.filter_singleton]
  simp [hne]

end Pieces

section Numerals

-- The zeros of the decimal digits of Unicode that are not ASCII.
def other_zeros : List Nat :=
  [0x660, 0x6f0, 0x7c0, 0x966, 0x9e6, 0xa66, 0xae6, 0xb66, 0xbe6, 0xc66, 0xce6, 0xd66,
    0xde6, 0xe50, 0xed0, 0xf20, 0x1040, 0x1090, 0x17e0, 0x1810, 0x1946, 0x19d0, 0x1a80, 0x1a90,
    0x1b50, 0x1bb0, 0x1c40, 0x1c50, 0xa620, 0xa8d0, 0xa900, 0xa9d0, 0xa9f0, 0xaa50, 0xabf0,
    0xff10, 0x104a0, 0x10d30, 0x11066, 0x110f0, 0x11136, 0x111d0, 0x112f0, 0x11450, 0x114d0,
    0x11650, 0x116c0, 0x11730, 0x118e0, 0x11950, 0x11c50, 0x11d50, 0x11da0, 0x11f50, 0x16a60,
    0x16ac0, 0x16b50, 0x1d7ce, 0x1d7d8, 0x1d7e2, 0x1d7ec, 0x1d7f6, 0x1e140, 0x1e2f0, 0x1e4f0,
    0x1e950, 0x1fbf0]

def to_decimal (c : Char) : Option Nat :=
  ((0x30 :: other_zeros).find? fun z => z ≤ c.toNat && c.toNat < z + 10).map (c.toNat - ·)

-- Single underscores may stand between digits.
def digits (s : Text) : Option (List Nat) :=
  ((s.splitOn '_').mapM fun group =>
    if group = [] then none else group.mapM to_decimal).map List.flatten

def max_str_digits : Nat := 4300

def unsigned (s : Text) : Option Nat := do
  let ds ← digits s
  if ds.length ≤ max_str_digits then some (ds.foldl (fun n d => 10 * n + d) 0) else none

-- `int(s)` for a text without white space around it.
def int (s : Text) : Option Int :=
  match s with
  | '-' :: s => (unsigned s).map fun n => -(n : Int)
  | '+' :: s => (unsigned s).map Int.ofNat
  | s => (unsigned s).map Int.ofNat

theorem toNat_of_isDigit {c : Char} (h : c.isDigit = true) : 48 ≤ c.toNat ∧ c.toNat ≤ 57 := by
  rw [Char.isDigit, Bool.and_eq_true, decide_eq_true_eq, decide_eq_true_eq] at h
  exact h

theorem is_space_of_isDigit {c : Char} (h : c.isDigit = true) : is_space c = false := by
  obtain ⟨hlo, hhi⟩ := toNat_of_isDigit h
  simp only [is_space, Bool.or_eq_false_iff, Bool.and_eq_false_iff, decide_eq_false_iff_not]
  omega

theorem to_decimal_digit {c : Char} (h : c.isDigit = true) :
    to_decimal c = some (c.toNat - '0'.toNat) := by
  have hle := toNat_of_isDigit h
  rw [to_decimal, List.find?_cons_of_pos]
  · rfl
  · simp only [Bool.and_eq_true, decide_eq_true_eq]
    exact ⟨hle.1, Nat.lt_succ_of_le hle.2⟩

theorem toString_ne_nil (n : Nat) : (toString n).toList ≠ [] := by
  rw [Decimal.toList_toString_nat]
  exact List.ne_nil_of_length_pos Nat.length_toDigits_pos

theorem digits_of_isDigit {s : Text} (hne : s ≠ []) (h : ∀ c ∈ s, c.isDigit = true) :
    digits s = some (s.map fun c => c.toNat - '0'.toNat) := by
  have hunderscore : '_' ∉ s := fun hmem => absurd (h _ hmem) (by decide)
  have hvalues : s.mapM to_decimal = some (s.map fun c => c.toNat - '0'.toNat) := by
    rw [Options.mapM_congr fun c hc => to_decimal_digit (h c hc)]
    exact List.mapM_pure
  rw [digits, List.splitOn_eq_singleton hunderscore, List.mapM_cons, if_neg hne, hvalues]
  simp

theorem int_toString {n : Nat} {m : Int} (h : int (toString n).toList = some m) : m = n := by
  have hne := toString_ne_nil n
  rw [Decimal.toList_toString_nat] at hne
  rw [Decimal.toList_toString_nat] at h
  have hdigits : ∀ c ∈ Nat.toDigits 10 n, c.isDigit = true := fun c hc =>
    Nat.isDigit_of_mem_toDigits (by omega) (by omega) hc
  have hint : int (Nat.toDigits 10 n) = (unsigned (Nat.toDigits 10 n)).map Int.ofNat := by
    unfold int
    split
    · rename_i heq
      exact absurd (hdigits '-' (heq ▸ List.mem_cons_self)) (by decide)
    · rename_i heq
      exact absurd (hdigits '+' (heq ▸ List.mem_cons_self)) (by decide)
    · rfl
  rw [hint, unsigned, digits_of_isDigit hne hdigits] at h
  obtain ⟨k, hk, rfl⟩ := Option.map_eq_some_iff.mp h
  simp only [Option.bind_eq_bind, Option.bind_some, List.foldl_map] at hk
  split_ifs at hk
  rw [← Option.some.inj hk]
  exact congrArg Int.ofNat (Nat.ofDigitChars_ten_toDigits)

end Numerals

end TTXla.Strings

import Mathlib.Data.List.Infix

-- The decimal texts of numbers.
namespace TTXla.Decimal

theorem toList_toString_nat (n : Nat) : (toString n).toList = Nat.toDigits 10 n := Nat.toList_repr

theorem toString_int_ofNat (n : Nat) : (toString (n : Int)) = toString n := rfl

theorem toString_int_negSucc (n : Nat) : toString (Int.negSucc n) = "-" ++ toString (n + 1) := rfl

theorem isDigit_of_mem_toString {n : Nat} {c : Char} (hc : c ∈ (toString n).toList) :
    c.isDigit = true := by
  rw [toList_toString_nat] at hc
  exact Nat.isDigit_of_mem_toDigits (by omega) (by omega) hc

theorem toString_nat_inj {n m : Nat} (h : toString n = toString m) : n = m := by
  have hdigits := congrArg String.toList h
  rw [toList_toString_nat, toList_toString_nat] at hdigits
  have hvalue := congrArg (fun ds => Nat.ofDigitChars 10 ds 0) hdigits
  simpa only [Nat.ofDigitChars_ten_toDigits] using hvalue

theorem minus_ne_toString (n m : Nat) : "-" ++ toString (n + 1) ≠ toString m := by
  intro h
  have hmem : '-' ∈ (toString m).toList := by
    rw [← h, String.toList_append]
    exact List.mem_append_left _ List.mem_cons_self
  exact absurd (isDigit_of_mem_toString hmem) (by decide)

theorem toString_int_inj {n m : Int} (h : toString n = toString m) : n = m := by
  cases n with
  | ofNat n =>
      cases m with
      | ofNat m => exact congrArg Int.ofNat (toString_nat_inj h)
      | negSucc m => exact (minus_ne_toString m n h.symm).elim
  | negSucc n =>
      cases m with
      | ofNat m => exact (minus_ne_toString n m h).elim
      | negSucc m =>
          have hsucc : toString (n + 1) = toString (m + 1) := by
            rw [toString_int_negSucc, toString_int_negSucc] at h
            exact (String.append_right_inj "-").mp h
          have := toString_nat_inj hsucc
          congr 1
          omega

-- Only digits and the sign stand in a number.
theorem not_mem_toString_int {c : Char} (hdigit : c.isDigit = false) (hsign : c ≠ '-') (n : Int) :
    c ∉ (toString n).toList := by
  intro hmem
  have hnat : ∀ n : Nat, c ∉ (toString n).toList := fun n hc => by
    rw [isDigit_of_mem_toString hc] at hdigit
    cases hdigit
  cases n with
  | ofNat n => exact hnat n hmem
  | negSucc n =>
      rw [toString_int_negSucc, String.toList_append] at hmem
      cases List.mem_append.mp hmem with
      | inl hminus => exact hsign (List.mem_singleton.mp hminus)
      | inr hdigits => exact hnat (n + 1) hdigits

end TTXla.Decimal

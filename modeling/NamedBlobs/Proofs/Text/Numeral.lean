import Mathlib.Algebra.Ring.Nat
import NamedBlobs.Text.Numeral

/-!
# Different numbers have different numerals

A decimal numeral can be read back, so it belongs to one number only
(`Numeral.integerChars_injective`). It is made of digits and at most one minus
sign, which stands in front of the digits of a negative number.
-/

namespace NamedBlobs

namespace Numeral

theorem isDigit_of_mem_decimalDigits {n : Nat} {c : Char} (h : c ∈ decimalDigits n) :
    c.isDigit = true :=
  Nat.isDigit_of_mem_toDigits (by decide) (by decide) h

theorem decimalDigits_injective : Function.Injective decimalDigits := by
  intro m n h
  calc
    m = Nat.ofDigitChars 10 (decimalDigits m) 0 := Nat.ofDigitChars_ten_toDigits.symm
    _ = Nat.ofDigitChars 10 (decimalDigits n) 0 := by rw [h]
    _ = n := Nat.ofDigitChars_ten_toDigits

/-- A numeral without a sign is no numeral with one. -/
theorem decimalDigits_ne_cons_minus (n : Nat) (chars : List Char) :
    decimalDigits n ≠ '-' :: chars := by
  intro h
  have hdigit : '-'.isDigit = true := isDigit_of_mem_decimalDigits (n := n) (by rw [h]; simp)
  exact absurd hdigit (by decide)

/-- A numeral with more than one digit does not begin with zero. -/
theorem decimalDigits_ne_zero_cons_cons (n : Nat) (c : Char) (chars : List Char) :
    decimalDigits n ≠ '0' :: c :: chars := by
  induction n using Nat.strongRecOn generalizing c chars with
  | ind n ih =>
      intro h
      by_cases hsmall : n < 10
      · rw [decimalDigits, Nat.toDigits_of_lt_base hsmall] at h
        exact List.cons_ne_nil c chars (List.cons.inj h).2.symm
      · have hfront : decimalDigits n = decimalDigits (n / 10) ++ [(n % 10).digitChar] :=
          Nat.toDigits_of_base_le (by decide) (Nat.not_lt.mp hsmall)
        rw [hfront] at h
        cases hdigits : decimalDigits (n / 10) with
        | nil => exact Nat.toDigits_ne_nil hdigits
        | cons first others =>
            rw [hdigits, List.cons_append, List.cons.injEq] at h
            obtain ⟨rfl, -⟩ := h
            cases others with
            | nil =>
                -- the single digit `0` is the numeral of zero, which is not `n / 10`
                have hzero : n / 10 = 0 := decimalDigits_injective hdigits
                omega
            | cons second others => exact ih (n / 10) (by omega) second others hdigits

theorem integerChars_injective : Function.Injective integerChars := by
  intro a b h
  cases a with
  | ofNat m =>
      cases b with
      | ofNat n => exact congrArg Int.ofNat (decimalDigits_injective h)
      | negSucc n => exact absurd h (decimalDigits_ne_cons_minus m _)
  | negSucc m =>
      cases b with
      | ofNat n => exact absurd h.symm (decimalDigits_ne_cons_minus n _)
      | negSucc n =>
          have hdigits := decimalDigits_injective (List.cons.inj h).2
          exact congrArg Int.negSucc (Nat.succ.inj hdigits)

theorem integerChars_ne_nil (value : Int) : integerChars value ≠ [] := by
  cases value with
  | ofNat n => exact Nat.toDigits_ne_nil
  | negSucc n => exact List.cons_ne_nil _ _

/-- A numeral has no other characters than digits and a minus sign. -/
theorem isDigit_or_eq_minus_of_mem {value : Int} {c : Char} (h : c ∈ integerChars value) :
    c.isDigit = true ∨ c = '-' := by
  cases value with
  | ofNat n => exact Or.inl (isDigit_of_mem_decimalDigits h)
  | negSucc n =>
      rcases List.mem_cons.mp h with hminus | hdigits
      · exact Or.inr hminus
      · exact Or.inl (isDigit_of_mem_decimalDigits hdigits)

theorem notMem_integerChars {c : Char} (hdigit : c.isDigit = false) (hminus : c ≠ '-')
    (value : Int) : c ∉ integerChars value := by
  intro hmem
  rcases isDigit_or_eq_minus_of_mem hmem with h | h
  · rw [hdigit] at h
    cases h
  · exact hminus h

/-- The numeral of an integer is the usual decimal one. -/
theorem toList_toString (value : Int) : (toString value).toList = integerChars value := by
  cases value with
  | ofNat n => simp [toString, Int.repr, Nat.repr_eq_ofList_toDigits, integerChars, decimalDigits]
  | negSucc n =>
      simp [toString, Int.repr, Nat.repr_eq_ofList_toDigits, integerChars, decimalDigits]

/-- A number below the `count`-th power of ten takes that many digits, and maybe a
sign. -/
theorem length_integerChars_le {value : Int} {count : Nat} (hcount : 0 < count)
    (h : value.natAbs < 10 ^ count) : (integerChars value).length ≤ count + 1 := by
  cases value with
  | ofNat n =>
      exact Nat.le_succ_of_le ((Nat.length_toDigits_le_iff (by decide) hcount).mpr h)
  | negSucc n =>
      exact Nat.succ_le_succ ((Nat.length_toDigits_le_iff (by decide) hcount).mpr h)

end Numeral

end NamedBlobs

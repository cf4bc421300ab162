import Mathlib
import Dittor.Lib.Decimal

/-!
# Signed numbers in text

`%d` of a number that can be negative: a minus sign in front of the digits. `strtol` reads it
back (`strtol_decimalInt`).
-/

namespace Dittor.Lib

/-- `%d` and `%ld` -/
def decimalInt (z : ℤ) : List UInt8 := if z < 0 then 45 :: decimal z.natAbs else decimal z.natAbs

/-- A digit is neither a blank nor a sign. -/
theorem isDigit_plain {b : UInt8} (h : isDigit b = true) :
    isSpace b = false ∧ b.toNat ≠ 45 ∧ b.toNat ≠ 43 := by
  rw [isDigit, Bool.and_eq_true, decide_eq_true_iff, decide_eq_true_iff] at h
  refine ⟨?_, by omega, by omega⟩
  rw [isSpace, Bool.or_eq_false_iff, Bool.and_eq_false_iff, decide_eq_false_iff_not,
    decide_eq_false_iff_not, decide_eq_false_iff_not]
  omega

/-- What was printed is read back, if no digit follows it. -/
theorem strtol_decimalInt (z : ℤ) {rest : List UInt8} (h : ∀ b ∈ rest.head?, isDigit b = false) :
    strtol (decimalInt z ++ rest) = some (z, rest) := by
  have hread := readDecimal_decimal z.natAbs h
  rw [decimalInt]
  split_ifs with hneg
  · have hminus : isSpace 45 = false := by decide
    rw [strtol, List.cons_append, List.dropWhile_cons_of_neg (by simp [hminus])]
    dsimp only
    rw [if_pos (by decide), hread, Option.map_some]
    congr 2
    omega
  · obtain ⟨b, digits, hdigits⟩ := List.exists_cons_of_ne_nil (decimal_ne_nil z.natAbs)
    have hb : isDigit b = true := isDigit_of_mem_decimal (n := z.natAbs) (by rw [hdigits]; simp)
    obtain ⟨hspace, hminus, hplus⟩ := isDigit_plain hb
    rw [hdigits, List.cons_append] at hread ⊢
    rw [strtol, List.dropWhile_cons_of_neg (by simp [hspace])]
    dsimp only
    rw [if_neg hminus, if_neg hplus, hread, Option.map_some]
    congr 2
    omega

end Dittor.Lib

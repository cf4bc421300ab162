import Mathlib

/-!
# Division that rounds towards zero

The quotient of two `int`s in C is `Int.tdiv`. For a positive divisor it differs from the
fraction by less than one (`tdiv_error`), and it is compared with a number by a product:
`tdiv_le_iff` and `tdiv_nonneg_iff` say when a quotient is in a range. A numerator that is a
little below zero still has the quotient zero, so the range is one divisor wider than that of the
fraction.
-/

namespace Dittor.Lib

variable {a b c : ℤ}

/-- The quotient is off by less than the divisor. -/
theorem tdiv_error (hb : 0 < b) : a - b < b * a.tdiv b ∧ b * a.tdiv b < a + b := by
  have hsplit : b * a.tdiv b + a.tmod b = a := Int.mul_tdiv_add_tmod a b
  have hlt : a.tmod b < b := Int.tmod_lt_of_pos a hb
  have hgt : -b < a.tmod b := Int.lt_tmod_of_pos a hb
  constructor
  · omega
  · omega

/-- Of a numerator that is not negative it is rounded down. -/
theorem tdiv_le_self (ha : 0 ≤ a) : b * a.tdiv b ≤ a := by
  have hsplit : b * a.tdiv b + a.tmod b = a := Int.mul_tdiv_add_tmod a b
  have hpos : 0 ≤ a.tmod b := Int.tmod_nonneg b ha
  omega

/-- The quotient of such a numerator, by name. -/
theorem exists_tdiv (ha : 0 ≤ a) (hb : 0 < b) : ∃ q, a.tdiv b = q ∧ b * q ≤ a ∧ a < b * q + b := by
  have herror := (tdiv_error (a := a) hb).1
  exact ⟨_, rfl, tdiv_le_self ha, by omega⟩

theorem tdiv_nonneg_iff (hb : 0 < b) : 0 ≤ a.tdiv b ↔ -b < a := by
  constructor
  · intro h
    have herror := (tdiv_error (a := a) hb).2
    have hpos : 0 ≤ b * a.tdiv b := mul_nonneg hb.le h
    omega
  · intro h
    by_contra hneg
    have herror := (tdiv_error (a := a) hb).1
    have hle : b * a.tdiv b ≤ b * (-1) := mul_le_mul_of_nonneg_left (by omega) hb.le
    by_cases ha : 0 ≤ a
    · exact hneg (Int.tdiv_nonneg ha hb.le)
    · -- between the negative divisor and zero nothing is left
      have hzero : a.tdiv b = 0 := by
        have hsmall : (-a).tdiv b = 0 := Int.tdiv_eq_zero_of_lt (by omega) (by omega)
        rw [Int.neg_tdiv] at hsmall
        omega
      omega

theorem tdiv_le_iff (hb : 0 < b) (hc : 0 ≤ c) : a.tdiv b ≤ c ↔ a < b * (c + 1) := by
  constructor
  · intro h
    have herror := (tdiv_error (a := a) hb).1
    have hle : b * a.tdiv b ≤ b * c := mul_le_mul_of_nonneg_left h hb.le
    rw [mul_add, mul_one]
    omega
  · intro h
    by_cases ha : 0 ≤ a
    · have hdown := tdiv_le_self (b := b) ha
      have hlt : b * a.tdiv b < b * (c + 1) := lt_of_le_of_lt hdown h
      have := lt_of_mul_lt_mul_left hlt hb.le
      omega
    · have hneg : 0 ≤ (-a).tdiv b := Int.tdiv_nonneg (by omega) hb.le
      rw [Int.neg_tdiv] at hneg
      omega

end Dittor.Lib

import Mathlib

/-!
# The lowest set bit

The position of the lowest bit of a word that is set, which is the number of zeros behind it, and
of the lowest that is not. Between the two stands a run of ones: a word is its lowest run and what
is left when it is shifted out (`getLsbD_run`).
-/

namespace Dittor.Lib

variable {w : ℕ} {x : BitVec w} {i : ℕ}

/-- The lowest bit that is set; zero has none. -/
def lowestBit (x : BitVec w) : Option ℕ := (List.range w).find? fun i => x.getLsbD i

theorem lowestBit_eq_some :
    lowestBit x = some i ↔ x.getLsbD i = true ∧ ∀ j < i, x.getLsbD j = false := by
  unfold lowestBit
  rw [List.find?_range_eq_some]
  constructor
  · rintro ⟨hset, -, hbelow⟩
    exact ⟨hset, fun j hj => by simpa using hbelow j hj⟩
  · rintro ⟨hset, hbelow⟩
    refine ⟨hset, List.mem_range.mpr ?_, fun j hj => by simpa using hbelow j hj⟩
    by_contra hle
    rw [BitVec.getLsbD_of_ge x i (not_lt.mp hle)] at hset
    cases hset

theorem lowestBit_eq_none : lowestBit x = none ↔ x = 0#w := by
  unfold lowestBit
  rw [List.find?_range_eq_none]
  constructor
  · intro h
    refine BitVec.eq_of_getLsbD_eq fun i hi => ?_
    rw [BitVec.getLsbD_zero]
    simpa using h i hi
  · rintro rfl i -
    simp

/-- The bits of a word above its lowest zeros and the ones in front of them. -/
theorem getLsbD_run {zeros ones : ℕ} (hzeros : lowestBit x = some zeros)
    (hones : lowestBit (~~~(x >>> zeros)) = some ones) (i : ℕ) :
    x.getLsbD i = (decide (zeros ≤ i ∧ i < zeros + ones)
      || decide (zeros + ones ≤ i) && (x >>> zeros >>> ones).getLsbD (i - (zeros + ones))) := by
  obtain ⟨-, hbelow⟩ := lowestBit_eq_some.mp hzeros
  obtain ⟨hstop, hrun⟩ := lowestBit_eq_some.mp hones
  rcases lt_or_ge i zeros with hlow | hge
  · rw [hbelow i hlow, decide_eq_false (by omega), decide_eq_false (by omega)]
    rfl
  rcases lt_or_ge i (zeros + ones) with hin | habove
  · have hbit := hrun (i - zeros) (by omega)
    have hw : ones < w := by
      by_contra hno
      rw [BitVec.getLsbD_of_ge _ ones (not_lt.mp hno)] at hstop
      cases hstop
    rw [BitVec.getLsbD_not, BitVec.getLsbD_ushiftRight, Nat.add_sub_cancel' hge,
      decide_eq_true (by omega), Bool.true_and, Bool.not_eq_false'] at hbit
    rw [hbit, decide_eq_true ⟨hge, hin⟩]
    rfl
  · rw [decide_eq_false (by omega), decide_eq_true habove, BitVec.getLsbD_ushiftRight,
      BitVec.getLsbD_ushiftRight]
    have hindex : zeros + (ones + (i - (zeros + ones))) = i := by omega
    rw [hindex]
    rfl

theorem lowestBit_not_pos {zeros ones : ℕ} (hzeros : lowestBit x = some zeros)
    (hones : lowestBit (~~~(x >>> zeros)) = some ones) : 0 < ones := by
  obtain ⟨hset, -⟩ := lowestBit_eq_some.mp hzeros
  obtain ⟨hstop, -⟩ := lowestBit_eq_some.mp hones
  by_contra hno
  obtain rfl : ones = 0 := by omega
  rw [BitVec.getLsbD_not, BitVec.getLsbD_ushiftRight, Nat.add_zero, hset] at hstop
  simp at hstop

end Dittor.Lib

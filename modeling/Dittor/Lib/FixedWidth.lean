import Mathlib

/-!
# Numbers of 32 and 64 bits

What the conversions of C make of a number: a signed one modulo the width, and back. A result that
fits is exact (`toInt_sub_toInt32`, `toInt_add_toInt32`), whatever the operands were.
-/

namespace Dittor.Lib

theorem toNat_toUInt64 (x : Int64) : (x.toUInt64.toNat : ℤ) = x.toInt % 2 ^ 64 := by
  have hlt := UInt64.toNat_lt x.toUInt64
  have hbmod : x.toInt = (x.toUInt64.toNat : ℤ).bmod (2 ^ 64) := BitVec.toInt_eq_toNat_bmod ..
  rw [hbmod]
  simp only [Int.bmod]
  split <;> omega

theorem toNat_toUInt32 (x : Int32) : (x.toUInt32.toNat : ℤ) = x.toInt % 2 ^ 32 := by
  have hlt := UInt32.toNat_lt x.toUInt32
  have hbmod : x.toInt = (x.toUInt32.toNat : ℤ).bmod (2 ^ 32) := BitVec.toInt_eq_toNat_bmod ..
  rw [hbmod]
  simp only [Int.bmod]
  split <;> omega

theorem toInt_toInt32 (x : UInt32) : x.toInt32.toInt = (x.toNat : ℤ).bmod (2 ^ 32) :=
  BitVec.toInt_eq_toNat_bmod ..

/-- Two signed numbers in order, subtracted as `size_t`. -/
theorem toNat_sub_toUInt64 {x y : Int32} (h : y.toInt ≤ x.toInt) :
    ((x.toInt64.toUInt64 - y.toInt64.toUInt64).toNat : ℤ) = x.toInt - y.toInt := by
  have hx := toNat_toUInt64 x.toInt64
  have hy := toNat_toUInt64 y.toInt64
  rw [Int32.toInt_toInt64] at hx hy
  have hxlt := Int32.toInt_lt x
  have hyle := Int32.le_toInt y
  rw [UInt64.toNat_sub]
  omega

/-- `x += n` with `n` unsigned. -/
theorem toInt_add_toInt32 {x : Int32} {n : UInt32} (h : x.toInt + n.toNat < 2 ^ 31) :
    (x.toUInt32 + n).toInt32.toInt = x.toInt + n.toNat := by
  have hx := toNat_toUInt32 x
  have hle := Int32.le_toInt x
  rw [toInt_toInt32, UInt32.toNat_add]
  simp only [Int.bmod]
  split <;> omega

/-- `x -= n` with `n` of 64 bits. -/
theorem toInt_sub_toInt32 {x : Int32} {n : Int64} (hlow : -2 ^ 31 ≤ x.toInt - n.toInt)
    (hhigh : x.toInt - n.toInt < 2 ^ 31) :
    (x.toInt64 - n).toInt32.toInt = x.toInt - n.toInt := by
  rw [Int64.toInt_toInt32, Int64.toInt_sub, Int32.toInt_toInt64]
  simp only [Int.bmod]
  split <;> split <;> omega

theorem toNat_max (a b : UInt64) : (max a b).toNat = max a.toNat b.toNat := by
  show (if a ≤ b then b else a).toNat = _
  split_ifs with h
  · exact (max_eq_right (UInt64.le_iff_toNat_le.mp h)).symm
  · exact (max_eq_left (by have := UInt64.lt_iff_toNat_lt.mp (UInt64.not_le.mp h); omega)).symm

theorem toNat_min (a b : UInt64) : (min a b).toNat = min a.toNat b.toNat := by
  show (if a ≤ b then a else b).toNat = _
  split_ifs with h
  · exact (min_eq_left (UInt64.le_iff_toNat_le.mp h)).symm
  · exact (min_eq_right (by have := UInt64.lt_iff_toNat_lt.mp (UInt64.not_le.mp h); omega)).symm

end Dittor.Lib

import Mathlib

/-!
# Leading bits

Two words have the same leading bits exactly if they are the same when shifted right
(`shiftRight_eq_iff`). For lists of bytes the leading bits are whole bytes and the high bits of the
next one (`take_eq_iff`, `leading_eq_iff`).
-/

namespace Dittor.Lib

section Words

variable {w k a b : ℕ}

theorem testBit_of_le (ha : a < 2 ^ w) {j : ℕ} (h : w ≤ j) : a.testBit j = false :=
  Nat.testBit_lt_two_pow (ha.trans_le (Nat.pow_le_pow_right (by decide) h))

/-- Words with the same leading bits. -/
theorem shiftRight_eq_iff (ha : a < 2 ^ w) (hb : b < 2 ^ w) (hk : k ≤ w) :
    a >>> (w - k) = b >>> (w - k) ↔ ∀ i < k, a.testBit (w - 1 - i) = b.testBit (w - 1 - i) := by
  constructor
  · intro h i hi
    have hbit := congrArg (fun n => n.testBit (k - 1 - i)) h
    rw [Nat.testBit_shiftRight, Nat.testBit_shiftRight] at hbit
    rwa [show w - k + (k - 1 - i) = w - 1 - i by omega] at hbit
  · intro h
    refine Nat.eq_of_testBit_eq fun j => ?_
    rw [Nat.testBit_shiftRight, Nat.testBit_shiftRight]
    by_cases hj : j < k
    · have hbit := h (k - 1 - j) (by omega)
      rwa [show w - 1 - (k - 1 - j) = w - k + j by omega] at hbit
    · rw [testBit_of_le ha (by omega), testBit_of_le hb (by omega)]

end Words

/-- The bits of a list of bytes, the highest of each byte first. -/
def bitOf (bytes : List UInt8) (i : ℕ) : Bool := (bytes[i / 8]?.getD 0).toNat.testBit (7 - i % 8)

section Bytes

variable {x y : List UInt8} {k r : ℕ}

/-- The high bits of one byte. -/
theorem highBits_eq_iff (hr : r ≤ 8) :
    (x[k]?.getD 0).toNat >>> (8 - r) = (y[k]?.getD 0).toNat >>> (8 - r) ↔
      ∀ j < r, bitOf x (8 * k + j) = bitOf y (8 * k + j) := by
  rw [shiftRight_eq_iff (w := 8) (x[k]?.getD 0).toNat_lt (y[k]?.getD 0).toNat_lt hr]
  refine forall_congr' fun j => forall_congr' fun hj => ?_
  unfold bitOf
  rw [show (8 * k + j) / 8 = k by omega, show (8 * k + j) % 8 = j by omega]

/-- Bytes with the same bits. -/
theorem getElem?_eq_iff (hlen : x.length = y.length) :
    x[k]? = y[k]? ↔ ∀ j < 8, bitOf x (8 * k + j) = bitOf y (8 * k + j) := by
  rw [← highBits_eq_iff (k := k) le_rfl, Nat.sub_self, Nat.shiftRight_zero, Nat.shiftRight_zero,
    UInt8.toNat_inj]
  constructor
  · exact fun h => by rw [h]
  · intro h
    by_cases hk : k < x.length
    · rw [List.getElem?_eq_getElem hk, List.getElem?_eq_getElem (hlen ▸ hk)] at h ⊢
      exact congrArg some h
    · rw [List.getElem?_eq_none (by omega), List.getElem?_eq_none (by omega)]

/-- Leading bytes with the same bits. -/
theorem take_eq_iff (hlen : x.length = y.length) :
    x.take k = y.take k ↔ ∀ i < 8 * k, bitOf x i = bitOf y i := by
  constructor
  · intro h i hi
    have hget : x[i / 8]? = y[i / 8]? := by
      have := congrArg (fun l => l[i / 8]?) h
      simpa only [List.getElem?_take_of_lt (show i / 8 < k by omega)] using this
    unfold bitOf
    rw [hget]
  · intro h
    refine List.ext_getElem? fun j => ?_
    by_cases hj : j < k
    · rw [List.getElem?_take_of_lt hj, List.getElem?_take_of_lt hj]
      exact (getElem?_eq_iff hlen).mpr fun i hi => h _ (by omega)
    · rw [List.getElem?_eq_none (by rw [List.length_take]; omega),
        List.getElem?_eq_none (by rw [List.length_take]; omega)]

/-- **Leading bits** are whole bytes and the high bits of the next one. -/
theorem leading_eq_iff {m : ℕ} (hlen : x.length = y.length) :
    (x.take (m / 8) = y.take (m / 8) ∧ (m % 8 ≠ 0 →
        (x[m / 8]?.getD 0).toNat >>> (8 - m % 8) = (y[m / 8]?.getD 0).toNat >>> (8 - m % 8)))
      ↔ ∀ i < m, bitOf x i = bitOf y i := by
  rw [take_eq_iff hlen, highBits_eq_iff (by omega)]
  constructor
  · rintro ⟨hbytes, hbits⟩ i hi
    by_cases hlow : i < 8 * (m / 8)
    · exact hbytes i hlow
    · have hbit := hbits (by omega) (i - 8 * (m / 8)) (by omega)
      rwa [show 8 * (m / 8) + (i - 8 * (m / 8)) = i by omega] at hbit
  · exact fun h => ⟨fun i hi => h i (by omega), fun _ j hj => h _ (by omega)⟩

end Bytes

end Dittor.Lib

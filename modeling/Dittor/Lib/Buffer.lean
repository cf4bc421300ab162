import Mathlib

/-!
# Buffers of a fixed size

A buffer keeps its length, and what is written has to lie inside: `Buffer.write` asks for the proof.
What is read at a position is what was written there last (`Buffer.get_write`); numbers of two bytes
are in network byte order.
-/

namespace Dittor.Lib

/-- `n` bytes. -/
structure Buffer (n : ℕ) where
  bytes : List UInt8
  length_eq : bytes.length = n
deriving DecidableEq

namespace Buffer

variable {n : ℕ}

/-- `memset(buf, 0, n)` -/
def zeros (n : ℕ) : Buffer n := ⟨List.replicate n 0, List.length_replicate⟩

/-- `memcpy(buf + pos, src, len)` -/
def write (b : Buffer n) (pos : ℕ) (src : List UInt8) (h : pos + src.length ≤ n) : Buffer n where
  bytes := b.bytes.take pos ++ src ++ b.bytes.drop (pos + src.length)
  length_eq := by
    have := b.length_eq
    simp only [List.length_append, List.length_take, List.length_drop]
    omega

/-- The byte at a position. -/
def get (b : Buffer n) (i : ℕ) : UInt8 := b.bytes.getD i 0

/-- `len` bytes from a position. -/
def slice (b : Buffer n) (pos len : ℕ) : List UInt8 := (b.bytes.drop pos).take len

/-- `ntohs(get_uint16(buf + pos))` -/
def uint16At (b : Buffer n) (pos : ℕ) : UInt16 :=
  UInt16.ofNat ((b.get pos).toNat * 256 + (b.get (pos + 1)).toNat)

end Buffer

/-- The two bytes of `htons`. -/
def be16 (v : UInt16) : List UInt8 := [UInt8.ofNat (v.toNat / 256), UInt8.ofNat (v.toNat % 256)]

namespace Buffer

variable {n : ℕ} {b c : Buffer n} {pos len : ℕ} {src : List UInt8} {h : pos + src.length ≤ n}

/-- **Reading after writing.** -/
theorem get_write (i : ℕ) : (b.write pos src h).get i =
    if pos ≤ i ∧ i < pos + src.length then src.getD (i - pos) 0 else b.get i := by
  have hlength := b.length_eq
  unfold get write
  simp only [List.getD_eq_getElem?_getD]
  by_cases hlt : i < pos
  · rw [if_neg (by omega), List.append_assoc, List.getElem?_append_left (by simp; omega),
      List.getElem?_take_of_lt hlt]
  · by_cases hin : i < pos + src.length
    · rw [if_pos (by omega), List.getElem?_append_left (by simp; omega),
        List.getElem?_append_right (by simp; omega)]
      congr 3
      rw [List.length_take]
      omega
    · rw [if_neg (by omega), List.getElem?_append_right (by simp; omega), List.getElem?_drop]
      congr 3
      rw [List.length_append, List.length_take]
      omega

theorem get_write_of_mem {i : ℕ} (hpos : pos ≤ i) (hi : i < pos + src.length) :
    (b.write pos src h).get i = src.getD (i - pos) 0 := by
  rw [get_write, if_pos ⟨hpos, hi⟩]

/-- What is not written stays. -/
theorem get_write_of_not {i : ℕ} (hi : i < pos ∨ pos + src.length ≤ i) :
    (b.write pos src h).get i = b.get i := by
  rw [get_write, if_neg (by omega)]

theorem get_zeros (i : ℕ) : (zeros n).get i = 0 := by
  unfold get zeros
  rw [List.getD_eq_getElem?_getD, List.getElem?_replicate]
  split_ifs <;> rfl

theorem length_slice (hlen : pos + len ≤ n) : (b.slice pos len).length = len := by
  have hlength := b.length_eq
  unfold slice
  rw [List.length_take, List.length_drop]
  omega

theorem getElem?_slice (hlen : pos + len ≤ n) {i : ℕ} (hi : i < len) :
    (b.slice pos len)[i]? = some (b.get (pos + i)) := by
  have hlength := b.length_eq
  unfold slice get
  rw [List.getElem?_take_of_lt hi, List.getElem?_drop, List.getD_eq_getElem?_getD,
    List.getElem?_eq_getElem (by omega)]
  rfl

/-- A slice is a list if it is byte by byte. -/
theorem slice_eq_list (hlen : pos + src.length ≤ n)
    (heq : ∀ i < src.length, b.get (pos + i) = src.getD i 0) : b.slice pos src.length = src := by
  refine List.ext_getElem? fun i => ?_
  by_cases hi : i < src.length
  · rw [getElem?_slice hlen hi, heq i hi, List.getD_eq_getElem?_getD, List.getElem?_eq_getElem hi]
    rfl
  · rw [List.getElem?_eq_none (by rw [length_slice hlen]; omega),
      List.getElem?_eq_none (by omega)]

/-- A number that is written is read back. -/
theorem uint16At_eq {v : UInt16} (hhigh : b.get pos = UInt8.ofNat (v.toNat / 256))
    (hlow : b.get (pos + 1) = UInt8.ofNat (v.toNat % 256)) : b.uint16At pos = v := by
  have hv := UInt16.toNat_lt v
  unfold uint16At
  rw [hhigh, hlow, ← UInt16.toNat_inj, UInt16.toNat_ofNat', UInt8.toNat_ofNat', UInt8.toNat_ofNat']
  omega

/-- A number that is read is written back. -/
theorem be16_uint16At (pos : ℕ) : be16 (b.uint16At pos) = [b.get pos, b.get (pos + 1)] := by
  have hhigh := UInt8.toNat_lt (b.get pos)
  have hlow := UInt8.toNat_lt (b.get (pos + 1))
  unfold be16 uint16At
  rw [UInt16.toNat_ofNat', Nat.mod_eq_of_lt (by omega)]
  congr 1
  · rw [← UInt8.toNat_inj, UInt8.toNat_ofNat']
    omega
  · congr 1
    rw [← UInt8.toNat_inj, UInt8.toNat_ofNat']
    omega

end Buffer

end Dittor.Lib

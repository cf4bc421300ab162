import Mathlib
import Dittor.Lib.Checks
import Dittor.Tor.Base64

/-!
# Encodings in buffers (`binascii.c`)

The encoders and decoders with everything they index: the source, their tables, and the buffer of
`destlen` bytes that they write to. A position outside is a fault (`Fault.outOfRange`), and so is an
assertion that fails.

Base16 and base32 are here. What is encoded in base32 is a row of 5-bit values across the bytes
(`base32Value`), and decoding puts a byte together from two or three of them (`base32Byte`), in five
cases that repeat every five bytes.
-/

namespace Dittor.Tor.Binascii

open Dittor.Lib

/-! ## Reading and writing -/

/-- How a function fails: an assertion, or a position outside of a buffer or a table. -/
inductive Fault where
  | assertion
  | outOfRange
deriving DecidableEq

/-- A computation that can fail so. -/
abbrev Checked (α : Type) := Except Fault α

/-- `list[i]` -/
def readAt {α : Type} (l : List α) (i : ℕ) : Checked α :=
  match l[i]? with
  | some a => .ok a
  | none => .error .outOfRange

/-- `*dest++ = b`, where `dest` has `destlen` bytes. -/
def store (destlen : ℕ) (dest : Bytes) (b : UInt8) : Checked Bytes :=
  if dest.length < destlen then .ok (dest ++ [b]) else .error .outOfRange

/-- `SIZE_T_CEILING` -/
def sizeTCeiling : ℕ := 9223372036854775791

/-- `INT_MAX` -/
def intMax : ℕ := 2147483647

theorem readAt_eq {α : Type} {l : List α} {i : ℕ} {a : α} (h : l[i]? = some a) :
    readAt l i = .ok a := by
  unfold readAt
  rw [h]

theorem readAt_getD {l : Bytes} {i : ℕ} (h : i < l.length) : readAt l i = .ok (l.getD i 0) := by
  refine readAt_eq ?_
  rw [List.getD_eq_getElem?_getD, List.getElem?_eq_getElem h]
  rfl

theorem store_eq {destlen : ℕ} {dest : Bytes} (h : dest.length < destlen) (b : UInt8) :
    store destlen dest b = .ok (dest ++ [b]) := if_pos h

theorem ok_bind {α β : Type} (a : α) (f : α → Checked β) : (Except.ok a >>= f) = f a := rfl

theorem torAssert_pos {p : Prop} [Decidable p] (h : p) :
    torAssert p Fault.assertion = .ok () := if_pos h

/-- No position is outside. -/
def InRange {α : Type} (x : Checked α) : Prop := x ≠ .error .outOfRange

theorem inRange_ok {α : Type} (a : α) : InRange (.ok a : Checked α) := nofun

theorem inRange_assert {p : Prop} [Decidable p] : InRange (torAssert p Fault.assertion) := by
  unfold torAssert
  split_ifs
  · exact inRange_ok ()
  · exact fun h => nomatch h

theorem InRange.bind {α β : Type} {x : Checked α} {f : α → Checked β} (hx : InRange x)
    (hf : ∀ a, x = .ok a → InRange (f a)) : InRange (x >>= f) := by
  cases x with
  | ok a => exact hf a rfl
  | error e =>
    intro h
    exact hx (congrArg Except.error (Except.error.inj h))

/-- Behind an assertion it holds. -/
theorem inRange_assert_bind {α : Type} {p : Prop} [Decidable p] {f : Unit → Checked α}
    (h : p → InRange (f ())) : InRange (torAssert p Fault.assertion >>= f) :=
  inRange_assert.bind fun _ hp => h (torAssert_eq_ok.mp hp)

/-! ## Base16 -/

/-- `"0123456789ABCDEF"` -/
def hexDigits : Bytes := cstring "0123456789ABCDEF"

/-- The loop of `base16_encode`. -/
def base16EncodeLoop (destlen : ℕ) (dest : Bytes) : Bytes → Checked Bytes
  | [] => .ok dest
  | b :: src => do
    let dest ← store destlen dest (← readAt hexDigits (b.toNat / 16))
    let dest ← store destlen dest (← readAt hexDigits (b.toNat % 16))
    base16EncodeLoop destlen dest src

/-- `base16_encode`: what is in `dest` before the terminating NUL. -/
def base16Encode (destlen : ℕ) (src : Bytes) : Checked Bytes := do
  torAssert (src.length < sizeTCeiling / 2 - 1) .assertion
  torAssert (destlen ≥ 2 * src.length + 1) .assertion
  torAssert (destlen < sizeTCeiling) .assertion
  let dest ← base16EncodeLoop destlen [] src
  let _ ← store destlen dest 0
  return dest

/-- The loop of `base16_decode`. -/
def base16DecodeLoop (destlen : ℕ) (src : Bytes) (i : ℕ) (dest : Bytes) : Checked (Option Bytes) :=
  if i < src.length then do
    let v1 := hexDecodeDigit (← readAt src i)
    let v2 := hexDecodeDigit (← readAt src (i + 1))
    match v1, v2 with
    | some v1, some v2 =>
      let dest ← store destlen dest (UInt8.ofNat (v1 * 16 + v2))
      base16DecodeLoop destlen src (i + 2) dest
    | _, _ => return none
  else return some dest
termination_by src.length - i

/-- `base16_decode`; `none` is -1. -/
def base16Decode (destlen : ℕ) (src : Bytes) : Checked (Option Bytes) :=
  if src.length % 2 ≠ 0 then return none
  else if destlen < src.length / 2 ∨ destlen > intMax then return none
  else do
    let dest ← base16DecodeLoop destlen src 0 []
    torAssert (∀ d ∈ dest, d.length ≤ destlen) .assertion
    return dest

section Base16

variable {destlen : ℕ} {src dest : Bytes}

theorem readAt_hexDigits {n : ℕ} (h : n < 16) : readAt hexDigits n = .ok (base16Digit n) := by
  have hall : ∀ n : Fin 16, hexDigits[n.val]? = some (base16Digit n) := by decide
  exact readAt_eq (hall ⟨n, h⟩)

theorem base16EncodeLoop_eq (h : dest.length + 2 * src.length ≤ destlen) :
    base16EncodeLoop destlen dest src = .ok (dest ++ Tor.base16Encode src) := by
  induction src generalizing dest with
  | nil =>
    rw [base16EncodeLoop, Tor.base16Encode, List.flatMap_nil, List.append_nil]
  | cons b src ih =>
    have hb := UInt8.toNat_lt b
    rw [List.length_cons] at h
    rw [base16EncodeLoop, readAt_hexDigits (by omega), ok_bind, store_eq (by omega), ok_bind,
      readAt_hexDigits (by omega), ok_bind,
      store_eq (by simp only [List.length_append, List.length_singleton]; omega), ok_bind,
      ih (by simp only [List.length_append, List.length_singleton]; omega)]
    simp only [Tor.base16Encode, List.flatMap_cons, List.append_assoc, List.cons_append,
      List.nil_append]

/-- **`base16_encode`** stays in its buffers. -/
theorem base16Encode_eq (hsrc : src.length < sizeTCeiling / 2 - 1)
    (hdest : 2 * src.length + 1 ≤ destlen) (hceiling : destlen < sizeTCeiling) :
    base16Encode destlen src = .ok (Tor.base16Encode src) := by
  unfold base16Encode
  rw [torAssert_pos hsrc, ok_bind, torAssert_pos hdest, ok_bind, torAssert_pos hceiling, ok_bind,
    base16EncodeLoop_eq (by simp only [List.length_nil]; omega), ok_bind,
    store_eq (by rw [List.nil_append, length_base16Encode]; omega), ok_bind, List.nil_append]
  rfl

theorem base16DecodeLoop_eq {i : ℕ} (heven : (src.length - i) % 2 = 0)
    (hdest : dest.length + (src.length - i) / 2 ≤ destlen) :
    base16DecodeLoop destlen src i dest
      = .ok ((Tor.base16Decode (src.drop i)).map fun out => dest ++ out) := by
  induction hn : (src.length - i) / 2 generalizing i dest with
  | zero =>
    rw [base16DecodeLoop, if_neg (by omega), List.drop_eq_nil_of_le (by omega), Tor.base16Decode,
      Option.map_some, List.append_nil]
    rfl
  | succ n ih =>
    have hi : i < src.length := by omega
    have hi' : i + 1 < src.length := by omega
    rw [base16DecodeLoop, if_pos hi, readAt_eq (List.getElem?_eq_getElem hi), ok_bind,
      readAt_eq (List.getElem?_eq_getElem hi'), ok_bind, List.drop_eq_getElem_cons hi,
      List.drop_eq_getElem_cons hi', Tor.base16Decode]
    dsimp only
    cases hexDecodeDigit src[i] with
    | none => rfl
    | some v1 =>
      cases hexDecodeDigit src[i + 1] with
      | none => rfl
      | some v2 =>
        dsimp only
        rw [store_eq (by omega), ok_bind, ih (by omega)
          (by simp only [List.length_append, List.length_singleton]; omega) (by omega)]
        cases Tor.base16Decode (src.drop (i + 2)) with
        | none => rfl
        | some out => simp only [Option.map_some, List.append_assoc, List.singleton_append]

/-- **`base16_decode`** has no fault. -/
theorem base16Decode_eq (destlen : ℕ) (src : Bytes) : base16Decode destlen src = .ok
    (if src.length % 2 ≠ 0 ∨ destlen < src.length / 2 ∨ destlen > intMax then none
      else Tor.base16Decode src) := by
  unfold base16Decode
  by_cases hodd : src.length % 2 ≠ 0
  · rw [if_pos hodd, if_pos (.inl hodd)]
    rfl
  · rw [if_neg hodd]
    by_cases hdest : destlen < src.length / 2 ∨ destlen > intMax
    · rw [if_pos hdest, if_pos (.inr hdest)]
      rfl
    · rw [if_neg hdest, if_neg (by tauto), base16DecodeLoop_eq (by omega)
        (by simp only [List.length_nil]; omega), ok_bind, List.drop_zero]
      simp only [List.nil_append, Option.map_id']
      rw [torAssert_pos, ok_bind]
      · rfl
      · intro d hd
        have := base16Decode_length (Option.mem_def.mp hd)
        omega

theorem base16Encode_inRange (destlen : ℕ) (src : Bytes) : InRange (base16Encode destlen src) := by
  by_cases h : src.length < sizeTCeiling / 2 - 1 ∧ 2 * src.length + 1 ≤ destlen
      ∧ destlen < sizeTCeiling
  · rw [base16Encode_eq h.1 h.2.1 h.2.2]
    exact inRange_ok _
  · unfold base16Encode
    exact inRange_assert_bind fun hsrc => inRange_assert_bind fun hdest =>
      inRange_assert_bind fun hceiling => absurd ⟨hsrc, hdest, hceiling⟩ h

theorem base16Decode_inRange (destlen : ℕ) (src : Bytes) : InRange (base16Decode destlen src) := by
  rw [base16Decode_eq]
  exact inRange_ok _

end Base16

/-! ## Base32 -/

/-- `BASE32_CHARS` -/
def base32Chars : Bytes := cstring "abcdefghijklmnopqrstuvwxyz234567"

/-- `base32_encoded_size`: with the terminating NUL. -/
def base32EncodedSize (srclen : ℕ) : Checked ℕ := do
  torAssert (srclen < sizeTCeiling / 8) .assertion
  let enclen := (srclen * 8 + 4) / 5 + 1
  torAssert (enclen < intMax ∧ enclen > srclen) .assertion
  return enclen

/-- `v` in `base32_encode`: the 16 bits from `src[idx]` on, padded with zeros. -/
def base32Word (src : Bytes) (idx : ℕ) : Checked ℕ := do
  let v := (← readAt src idx).toNat * 256
  if idx + 1 < src.length then return v + (← readAt src (idx + 1)).toNat
  else return v

/-- The loop of `base32_encode`: the character for the five bits from `bit` on. -/
def base32EncodeLoop (destlen : ℕ) (src : Bytes) (bit : ℕ) (dest : Bytes) : Checked Bytes :=
  if bit < src.length * 8 then do
    let v ← base32Word src (bit / 8)
    let u := v / 2 ^ (11 - bit % 8) % 32
    let dest ← store destlen dest (← readAt base32Chars u)
    base32EncodeLoop destlen src (bit + 5) dest
  else return dest
termination_by src.length * 8 - bit

/-- `base32_encode`: what is in `dest` before the terminating NUL. -/
def base32Encode (destlen : ℕ) (src : Bytes) : Checked Bytes := do
  let size ← base32EncodedSize src.length
  torAssert (size ≤ destlen) .assertion
  torAssert (destlen < sizeTCeiling) .assertion
  let dest ← base32EncodeLoop destlen src 0 []
  let _ ← store destlen dest 0
  return dest

/-- The value of a character in `base32_decode`. -/
def base32DecodeChar (c : UInt8) : Option UInt8 :=
  if c > 0x60 ∧ c < 0x7B then some (c - 0x61)
  else if c > 0x31 ∧ c < 0x38 then some (c - 0x18)
  else if c > 0x40 ∧ c < 0x5B then some (c - 0x41)
  else none

/-- The byte that `base32_decode` puts together from the values. -/
def base32Assemble (tmp : Bytes) (bit : ℕ) : Checked ℕ := do
  let j := bit / 5
  match bit % 40 with
  | 0 =>
    return (← readAt tmp j).toNat * 8 + (← readAt tmp (j + 1)).toNat / 4
  | 8 =>
    return (← readAt tmp j).toNat * 64 + (← readAt tmp (j + 1)).toNat * 2
      + (← readAt tmp (j + 2)).toNat / 16
  | 16 =>
    return (← readAt tmp j).toNat * 16 + (← readAt tmp (j + 1)).toNat / 2
  | 24 =>
    return (← readAt tmp j).toNat * 128 + (← readAt tmp (j + 1)).toNat * 4
      + (← readAt tmp (j + 2)).toNat / 8
  | 32 =>
    return (← readAt tmp j).toNat * 32 + (← readAt tmp (j + 1)).toNat
  | _ => return 0

/-- The second loop of `base32_decode`. -/
def base32DecodeLoop (destlen : ℕ) (tmp : Bytes) (nbits bit : ℕ) (dest : Bytes) : Checked Bytes :=
  if bit < nbits then do
    let dest ← store destlen dest (UInt8.ofNat (← base32Assemble tmp bit))
    base32DecodeLoop destlen tmp nbits (bit + 8) dest
  else return dest
termination_by nbits - bit

/-- `base32_decode`; `none` is -1. -/
def base32Decode (destlen : ℕ) (src : Bytes) : Checked (Option Bytes) := do
  let nbits := src.length * 5 / 8 * 8
  torAssert (src.length < sizeTCeiling / 5) .assertion
  torAssert (nbits / 8 ≤ destlen) .assertion
  torAssert (destlen < sizeTCeiling) .assertion
  match src.mapM base32DecodeChar with
  | none => return none
  | some tmp => some <$> base32DecodeLoop destlen tmp nbits 0 []

section Base32

variable {destlen : ℕ} {src dest tmp : Bytes}

/-- The five bits of the source at `5 * i`, padded with zeros. -/
def base32Value (src : Bytes) (i : ℕ) : ℕ :=
  ((src.getD (5 * i / 8) 0).toNat * 256 + (src.getD (5 * i / 8 + 1) 0).toNat)
    / 2 ^ (11 - 5 * i % 8) % 32

/-- The number of characters. -/
def base32Count (srclen : ℕ) : ℕ := (srclen * 8 + 4) / 5

/-- The text of the source. -/
def base32Text (src : Bytes) : Bytes :=
  (List.range (base32Count src.length)).map fun i => base32Chars.getD (base32Value src i) 0

theorem length_base32Text (src : Bytes) : (base32Text src).length = base32Count src.length := by
  rw [base32Text, List.length_map, List.length_range]

theorem base32Value_lt (src : Bytes) (i : ℕ) : base32Value src i < 32 := Nat.mod_lt _ (by decide)

theorem base32Word_eq {idx : ℕ} (h : idx < src.length) : base32Word src idx
    = .ok ((src.getD idx 0).toNat * 256 + (src.getD (idx + 1) 0).toNat) := by
  unfold base32Word
  rw [readAt_getD h, ok_bind]
  split
  · next hnext =>
    rw [readAt_getD hnext]
    rfl
  · next hnext =>
    have hnone : src.getD (idx + 1) 0 = 0 := by
      rw [List.getD_eq_getElem?_getD, List.getElem?_eq_none (by omega), Option.getD_none]
    rw [hnone, UInt8.toNat_zero, Nat.add_zero]
    rfl

theorem base32EncodeLoop_eq {i : ℕ} (hi : dest.length = i) (hdest : base32Count src.length ≤ destlen) :
    base32EncodeLoop destlen src (5 * i) dest = .ok (dest ++
      (List.range' i (base32Count src.length - i)).map fun i =>
        base32Chars.getD (base32Value src i) 0) := by
  induction hn : base32Count src.length - i generalizing i dest with
  | zero =>
    unfold base32Count at hn
    rw [base32EncodeLoop, if_neg (by omega), List.range'_zero, List.map_nil, List.append_nil]
    rfl
  | succ n ih =>
    have hcount : base32Count src.length = (src.length * 8 + 4) / 5 := rfl
    have hidx : 5 * i / 8 < src.length := by omega
    rw [base32EncodeLoop, if_pos (by omega), base32Word_eq hidx, ok_bind]
    dsimp only
    have hvalue := base32Value_lt src i
    unfold base32Value at hvalue
    rw [readAt_getD (show _ < base32Chars.length from hvalue), ok_bind, store_eq (by omega), ok_bind,
      show 5 * i + 5 = 5 * (i + 1) by omega,
      ih (by rw [List.length_append, List.length_singleton, hi]) (by omega), List.range'_succ,
      List.map_cons, List.append_assoc, List.singleton_append]
    rfl

/-- **`base32_encode`** stays in its buffers. -/
theorem base32Encode_eq {size : ℕ} (hsize : base32EncodedSize src.length = .ok size)
    (hdest : size ≤ destlen) (hceiling : destlen < sizeTCeiling) :
    base32Encode destlen src = .ok (base32Text src) ∧ size = (base32Text src).length + 1 := by
  have hlength : size = base32Count src.length + 1 := by
    unfold base32EncodedSize at hsize
    obtain ⟨_, -, hsize⟩ := bind_eq_ok.mp hsize
    obtain ⟨_, -, hsize⟩ := bind_eq_ok.mp hsize
    exact (Except.ok.inj hsize).symm
  have htext := length_base32Text src
  refine ⟨?_, by rw [hlength, htext]⟩
  unfold base32Encode
  rw [hsize, ok_bind, torAssert_pos hdest, ok_bind, torAssert_pos hceiling, ok_bind,
    base32EncodeLoop_eq (i := 0) rfl (by omega), ok_bind, Nat.sub_zero, ← List.range_eq_range',
    List.nil_append]
  change (store destlen (base32Text src) 0 >>= _) = _
  rw [store_eq (by omega)]
  rfl

/-- The byte at `k`. -/
def base32Byte (tmp : Bytes) (k : ℕ) : UInt8 :=
  let t := fun i => (tmp.getD i 0).toNat
  let j := 8 * k / 5
  UInt8.ofNat
    (match k % 5 with
    | 0 => t j * 8 + t (j + 1) / 4
    | 1 => t j * 64 + t (j + 1) * 2 + t (j + 2) / 16
    | 2 => t j * 16 + t (j + 1) / 2
    | 3 => t j * 128 + t (j + 1) * 4 + t (j + 2) / 8
    | _ => t j * 32 + t (j + 1))

theorem base32Assemble_eq {k : ℕ} (hk : k < tmp.length * 5 / 8) :
    ∃ n, base32Assemble tmp (8 * k) = .ok n ∧ UInt8.ofNat n = base32Byte tmp k := by
  have hread : ∀ i, i < tmp.length → readAt tmp i = .ok (tmp.getD i 0) := fun i hi => readAt_getD hi
  have hmod : k % 5 < 5 := Nat.mod_lt _ (by decide)
  unfold base32Assemble base32Byte
  dsimp only
  rw [show 8 * k % 40 = 8 * (k % 5) by omega]
  interval_cases hr : k % 5
  · rw [hread _ (by omega), hread _ (by omega)]
    exact ⟨_, rfl, rfl⟩
  · rw [hread _ (by omega), hread _ (by omega), hread _ (by omega)]
    exact ⟨_, rfl, rfl⟩
  · rw [hread _ (by omega), hread _ (by omega)]
    exact ⟨_, rfl, rfl⟩
  · rw [hread _ (by omega), hread _ (by omega), hread _ (by omega)]
    exact ⟨_, rfl, rfl⟩
  · rw [hread _ (by omega), hread _ (by omega)]
    exact ⟨_, rfl, rfl⟩

theorem base32DecodeLoop_eq {k : ℕ} (hk : dest.length = k) (hdest : tmp.length * 5 / 8 ≤ destlen) :
    base32DecodeLoop destlen tmp (tmp.length * 5 / 8 * 8) (8 * k) dest = .ok (dest ++
      (List.range' k (tmp.length * 5 / 8 - k)).map (base32Byte tmp)) := by
  induction hn : tmp.length * 5 / 8 - k generalizing k dest with
  | zero =>
    rw [base32DecodeLoop, if_neg (by omega), List.range'_zero, List.map_nil, List.append_nil]
    rfl
  | succ n ih =>
    obtain ⟨v, hv, hbyte⟩ := base32Assemble_eq (show k < tmp.length * 5 / 8 by omega)
    rw [base32DecodeLoop, if_pos (by omega), hv, ok_bind, store_eq (by omega), ok_bind, hbyte,
      show 8 * k + 8 = 8 * (k + 1) by omega,
      ih (by rw [List.length_append, List.length_singleton, hk]) (by omega), List.range'_succ,
      List.map_cons, List.append_assoc, List.singleton_append]

/-- The characters stand for their values. -/
theorem base32DecodeChar_chars {n : ℕ} (h : n < 32) :
    base32DecodeChar (base32Chars.getD n 0) = some (UInt8.ofNat n) := by
  have hall : ∀ n : Fin 32, base32DecodeChar (base32Chars.getD n.val 0) = some (UInt8.ofNat n) := by
    decide
  exact hall ⟨n, h⟩

/-- The values that are decoded are those that were encoded. -/
theorem mapM_base32Text (src : Bytes) : (base32Text src).mapM base32DecodeChar
    = some ((List.range (base32Count src.length)).map fun i => UInt8.ofNat (base32Value src i)) := by
  unfold base32Text
  induction List.range (base32Count src.length) with
  | nil => rfl
  | cons i l ih =>
    rw [List.map_cons, List.mapM_cons, base32DecodeChar_chars (base32Value_lt src i), ih]
    rfl

/-- **The five cases**: two or three values have the bits of one byte. -/
theorem base32Byte_value {k : ℕ} (hk : k < src.length) :
    base32Byte ((List.range (base32Count src.length)).map fun i => UInt8.ofNat (base32Value src i)) k
      = src.getD k 0 := by
  have ht : ∀ i, i < base32Count src.length →
      (((List.range (base32Count src.length)).map fun i =>
        UInt8.ofNat (base32Value src i)).getD i 0).toNat = base32Value src i := by
    intro i hi
    rw [List.getD_eq_getElem?_getD, List.getElem?_map, List.getElem?_range hi, Option.map_some,
      Option.getD_some, UInt8.toNat_ofNat', Nat.mod_eq_of_lt]
    exact (base32Value_lt src i).trans (by decide)
  have hcount : base32Count src.length = (src.length * 8 + 4) / 5 := rfl
  obtain ⟨m, r, hr, rfl⟩ : ∃ m r, r < 5 ∧ k = 5 * m + r :=
    ⟨k / 5, k % 5, Nat.mod_lt _ (by decide), by omega⟩
  have hbyte : ∀ i, (src.getD i 0).toNat < 256 := fun i => UInt8.toNat_lt _
  unfold base32Byte
  dsimp only
  rw [show (5 * m + r) % 5 = r by omega]
  refine ofNat_eq ?_
  have h0 := hbyte (5 * m)
  have h1 := hbyte (5 * m + 1)
  have h2 := hbyte (5 * m + 2)
  have h3 := hbyte (5 * m + 3)
  have h4 := hbyte (5 * m + 4)
  have h5 := hbyte (5 * m + 5)
  interval_cases r
  · rw [ht _ (by omega), ht _ (by omega)]
    unfold base32Value
    rw [show 8 * (5 * m + 0) / 5 = 8 * m by omega, show 5 * (8 * m) / 8 = 5 * m by omega,
      show 5 * (8 * m) % 8 = 0 by omega, show 5 * (8 * m + 1) / 8 = 5 * m by omega,
      show 5 * (8 * m + 1) % 8 = 5 by omega]
    simp only [Nat.add_zero, Nat.reduceSub, Nat.reducePow]
    omega
  · rw [ht _ (by omega), ht _ (by omega), ht _ (by omega)]
    unfold base32Value
    rw [show 8 * (5 * m + 1) / 5 = 8 * m + 1 by omega, show 5 * (8 * m + 1) / 8 = 5 * m by omega,
      show 5 * (8 * m + 1) % 8 = 5 by omega, show 5 * (8 * m + 1 + 1) / 8 = 5 * m + 1 by omega,
      show 5 * (8 * m + 1 + 1) % 8 = 2 by omega, show 5 * (8 * m + 1 + 2) / 8 = 5 * m + 1 by omega,
      show 5 * (8 * m + 1 + 2) % 8 = 7 by omega]
    simp only [Nat.add_assoc, Nat.reduceAdd, Nat.reduceSub, Nat.reducePow]
    omega
  · rw [ht _ (by omega), ht _ (by omega)]
    unfold base32Value
    rw [show 8 * (5 * m + 2) / 5 = 8 * m + 3 by omega, show 5 * (8 * m + 3) / 8 = 5 * m + 1 by omega,
      show 5 * (8 * m + 3) % 8 = 7 by omega, show 5 * (8 * m + 3 + 1) / 8 = 5 * m + 2 by omega,
      show 5 * (8 * m + 3 + 1) % 8 = 4 by omega]
    simp only [Nat.add_assoc, Nat.reduceAdd, Nat.reduceSub, Nat.reducePow]
    omega
  · rw [ht _ (by omega), ht _ (by omega), ht _ (by omega)]
    unfold base32Value
    rw [show 8 * (5 * m + 3) / 5 = 8 * m + 4 by omega, show 5 * (8 * m + 4) / 8 = 5 * m + 2 by omega,
      show 5 * (8 * m + 4) % 8 = 4 by omega, show 5 * (8 * m + 4 + 1) / 8 = 5 * m + 3 by omega,
      show 5 * (8 * m + 4 + 1) % 8 = 1 by omega, show 5 * (8 * m + 4 + 2) / 8 = 5 * m + 3 by omega,
      show 5 * (8 * m + 4 + 2) % 8 = 6 by omega]
    simp only [Nat.add_assoc, Nat.reduceAdd, Nat.reduceSub, Nat.reducePow]
    omega
  · rw [ht _ (by omega), ht _ (by omega)]
    unfold base32Value
    rw [show 8 * (5 * m + 4) / 5 = 8 * m + 6 by omega, show 5 * (8 * m + 6) / 8 = 5 * m + 3 by omega,
      show 5 * (8 * m + 6) % 8 = 6 by omega, show 5 * (8 * m + 6 + 1) / 8 = 5 * m + 4 by omega,
      show 5 * (8 * m + 6 + 1) % 8 = 3 by omega]
    simp only [Nat.add_assoc, Nat.reduceAdd, Nat.reduceSub, Nat.reducePow]
    omega

/-- **`base32_decode`** of what was encoded. -/
theorem base32Decode_text {size : ℕ} (hsize : base32EncodedSize src.length = .ok size) :
    base32Decode src.length (base32Text src) = .ok (some src) := by
  unfold base32EncodedSize at hsize
  obtain ⟨_, hlimit, hsize⟩ := bind_eq_ok.mp hsize
  obtain ⟨_, hmax, -⟩ := bind_eq_ok.mp hsize
  rw [torAssert_eq_ok] at hlimit hmax
  unfold intMax at hmax
  have hceiling : sizeTCeiling = 9223372036854775791 := rfl
  have hcount : base32Count src.length = (src.length * 8 + 4) / 5 := rfl
  have hlength := length_base32Text src
  unfold base32Decode
  dsimp only
  rw [torAssert_pos (by omega), ok_bind, torAssert_pos (by omega), ok_bind,
    torAssert_pos (by omega), ok_bind, mapM_base32Text]
  dsimp only
  have htmp : (base32Text src).length = ((List.range (base32Count src.length)).map fun i =>
      UInt8.ofNat (base32Value src i)).length := by
    rw [hlength, List.length_map, List.length_range]
  rw [htmp, base32DecodeLoop_eq (k := 0) rfl (by omega)]
  change Except.ok (some _) = _
  rw [List.nil_append, ← htmp, hlength, show base32Count src.length * 5 / 8 - 0 = src.length by omega]
  congr 2
  refine List.ext_getElem? fun k => ?_
  by_cases hk : k < src.length
  · rw [List.getElem?_map, List.getElem?_range' hk, Option.map_some, Nat.zero_add, Nat.one_mul,
      base32Byte_value hk, List.getD_eq_getElem?_getD, List.getElem?_eq_getElem hk]
    rfl
  · rw [List.getElem?_eq_none (by rw [List.length_map, List.length_range']; omega),
      List.getElem?_eq_none (by omega)]

theorem base32EncodedSize_inRange (srclen : ℕ) : InRange (base32EncodedSize srclen) :=
  inRange_assert_bind fun _ => inRange_assert_bind fun _ => inRange_ok _

theorem base32Encode_inRange (destlen : ℕ) (src : Bytes) : InRange (base32Encode destlen src) := by
  by_cases h : ∃ size, base32EncodedSize src.length = .ok size ∧ size ≤ destlen
      ∧ destlen < sizeTCeiling
  · obtain ⟨size, hsize, hdest, hceiling⟩ := h
    rw [(base32Encode_eq hsize hdest hceiling).1]
    exact inRange_ok _
  · unfold base32Encode
    exact (base32EncodedSize_inRange _).bind fun size hsize => inRange_assert_bind fun hdest =>
      inRange_assert_bind fun hceiling => absurd ⟨size, hsize, hdest, hceiling⟩ h

theorem length_of_mapM {f : UInt8 → Option UInt8} : ∀ {l tmp : Bytes}, l.mapM f = some tmp →
    tmp.length = l.length
  | [], tmp, h => by
    cases h
    rfl
  | b :: l, tmp, h => by
    rw [List.mapM_cons, Option.bind_eq_bind, Option.bind_eq_some_iff] at h
    obtain ⟨v, -, h⟩ := h
    rw [Option.bind_eq_bind, Option.bind_eq_some_iff] at h
    obtain ⟨vs, hvs, h⟩ := h
    cases h
    rw [List.length_cons, List.length_cons, length_of_mapM hvs]

theorem base32Decode_inRange (destlen : ℕ) (src : Bytes) : InRange (base32Decode destlen src) := by
  unfold base32Decode
  refine inRange_assert_bind fun _ => inRange_assert_bind fun hdest => inRange_assert_bind fun _ => ?_
  split
  · exact inRange_ok _
  · next tmp htmp =>
    rw [← length_of_mapM htmp] at hdest ⊢
    rw [base32DecodeLoop_eq (k := 0) rfl (by omega)]
    exact inRange_ok _

end Base32

end Dittor.Tor.Binascii

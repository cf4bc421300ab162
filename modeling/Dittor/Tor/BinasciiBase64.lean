import Mathlib
import Dittor.Tor.Binascii

/-!
# Base64 in buffers (`binascii.c`)

`base64_encode` writes character by character, and breaks the lines while it does
(`base64Encode_eq`); `base64_encode_nopad` goes over its text again. `base64_decode` looks every
character up in a table of 256 entries, and checks the room before it writes (`base64Decode_inRange`).
With a buffer of just the length of the source it recovers the source (`base64Decode_eq`).
-/

namespace Dittor.Tor.Binascii

open Dittor.Lib

/-! ## Encoding -/

/-- `base64_encode_size`: without the terminating NUL. -/
def base64EncodeSize (srclen : ℕ) (multiline : Bool) : Checked ℕ := do
  torAssert (srclen < intMax) .assertion
  torAssert ((srclen + 2) / 3 < intMax / 4) .assertion
  let enclen := (srclen + 2) / 3 * 4
  let enclen := if multiline then enclen + (enclen + 63) / 64 else enclen
  torAssert (enclen < intMax ∧ (enclen = 0 ∨ enclen > srclen)) .assertion
  return enclen

/-- `base64_encode_table` -/
def base64EncodeTable : Bytes :=
  cstring "ABCDEFGHIJKLMNOPQRSTUVWXYZabcdefghijklmnopqrstuvwxyz0123456789+/"

/-- What is written up to `d`, and `linelen`. -/
structure Base64Out where
  dest : Bytes
  linelen : ℕ

section Encode

variable (destlen : ℕ) (multiline : Bool)

/-- `ENCODE_CHAR` -/
def encodeChar (out : Base64Out) (ch : UInt8) : Checked Base64Out := do
  let dest ← store destlen out.dest ch
  if multiline then
    if (out.linelen + 1) % 64 = 0 then return ⟨← store destlen dest (byte '\n'), 0⟩
    else return ⟨dest, out.linelen + 1⟩
  else return ⟨dest, out.linelen⟩

/-- `ENCODE_N` -/
def encodeN (n idx : ℕ) (out : Base64Out) : Checked Base64Out := do
  encodeChar destlen multiline out (← readAt base64EncodeTable (n / 2 ^ ((3 - idx) * 6) % 64))

/-- `ENCODE_PAD` -/
def encodePad (out : Base64Out) : Checked Base64Out := encodeChar destlen multiline out (byte '=')

/-- The loop of `base64_encode`; `n` has 32 bits. -/
def base64EncodeLoop (n nIdx : ℕ) (out : Base64Out) : Bytes → Checked (ℕ × ℕ × Base64Out)
  | [] => return (n, nIdx, out)
  | b :: usrc =>
    let n := (n * 256 + b.toNat) % 2 ^ 32
    if nIdx + 1 = 3 then do
      let out ← encodeN destlen multiline n 0 out
      let out ← encodeN destlen multiline n 1 out
      let out ← encodeN destlen multiline n 2 out
      let out ← encodeN destlen multiline n 3 out
      base64EncodeLoop 0 0 out usrc
    else base64EncodeLoop n (nIdx + 1) out usrc

/-- The bits that are left over. -/
def base64EncodeTail (n nIdx : ℕ) (out : Base64Out) : Checked Base64Out :=
  match nIdx with
  | 0 => return out
  | 1 => do
    let n := n * 16 % 2 ^ 32
    let out ← encodeN destlen multiline n 2 out
    let out ← encodeN destlen multiline n 3 out
    let out ← encodePad destlen multiline out
    encodePad destlen multiline out
  | 2 => do
    let n := n * 4 % 2 ^ 32
    let out ← encodeN destlen multiline n 1 out
    let out ← encodeN destlen multiline n 2 out
    let out ← encodeN destlen multiline n 3 out
    encodePad destlen multiline out
  | _ => .error .assertion

/-- The newline behind the last line. -/
def endLine (out : Base64Out) : Checked Bytes :=
  if multiline ∧ out.linelen ≠ 0 then store destlen out.dest (byte '\n') else .ok out.dest

/-- All characters of the source, without the last newline. -/
def base64EncodeAll (src : Bytes) : Checked Base64Out := do
  let (n, nIdx, out) ← base64EncodeLoop destlen multiline 0 0 ⟨[], 0⟩ src
  base64EncodeTail destlen multiline n nIdx out

/-- `base64_encode`: what is in `dest` before the terminating NUL; `none` is -1. -/
def base64Encode (src : Bytes) : Checked (Option Bytes) := do
  let enclen ← base64EncodeSize src.length multiline
  if destlen < enclen + 1 then return none
  else if destlen > sizeTCeiling then return none
  else if enclen > intMax then return none
  else
    let out ← base64EncodeAll destlen multiline src
    let dest ← endLine destlen multiline out
    torAssert (dest.length = enclen) .assertion
    let _ ← store destlen dest 0
    return some dest

end Encode

/-- The loop of `base64_encode_nopad` over `dest`: `in` reads it up to the NUL. -/
def stripPadding (out : Bytes) : Bytes → Checked Bytes
  | [] => .error .outOfRange
  | b :: rest =>
    if b = 0 then return out
    else if b = byte '=' ∨ b = byte '\n' then stripPadding out rest
    else stripPadding (out ++ [b]) rest

/-- `base64_encode_nopad` -/
def base64EncodeNopad (destlen : ℕ) (src : Bytes) : Checked (Option Bytes) := do
  match ← base64Encode destlen false src with
  | none => return none
  | some text =>
    if text.length = 0 then return some text
    else
      let dest := text ++ List.replicate (destlen - text.length) 0
      torAssert (text.length < destlen) .assertion
      torAssert ((← readAt dest text.length) = 0) .assertion
      let out ← stripPadding [] dest
      torAssert (out.length ≤ intMax) .assertion
      return some out

/-! ## Decoding -/

/-- `base64_decode_table`: `X` is 255, `SP` is 64 and `PAD` is 65. -/
def base64DecodeTable : List ℕ :=
  let X := 255
  let SP := 64
  let PAD := 65
  [X, X, X, X, X, X, X, X, X, SP, SP, SP, X, SP, X, X,
    X, X, X, X, X, X, X, X, X, X, X, X, X, X, X, X,
    SP, X, X, X, X, X, X, X, X, X, X, 62, X, X, X, 63,
    52, 53, 54, 55, 56, 57, 58, 59, 60, 61, X, X, X, PAD, X, X,
    X, 0, 1, 2, 3, 4, 5, 6, 7, 8, 9, 10, 11, 12, 13, 14,
    15, 16, 17, 18, 19, 20, 21, 22, 23, 24, 25, X, X, X, X, X,
    X, 26, 27, 28, 29, 30, 31, 32, 33, 34, 35, 36, 37, 38, 39, 40,
    41, 42, 43, 44, 45, 46, 47, 48, 49, 50, 51, X, X, X, X, X,
    X, X, X, X, X, X, X, X, X, X, X, X, X, X, X, X,
    X, X, X, X, X, X, X, X, X, X, X, X, X, X, X, X,
    X, X, X, X, X, X, X, X, X, X, X, X, X, X, X, X,
    X, X, X, X, X, X, X, X, X, X, X, X, X, X, X, X,
    X, X, X, X, X, X, X, X, X, X, X, X, X, X, X, X,
    X, X, X, X, X, X, X, X, X, X, X, X, X, X, X, X,
    X, X, X, X, X, X, X, X, X, X, X, X, X, X, X, X,
    X, X, X, X, X, X, X, X, X, X, X, X, X, X, X, X]

/-- The loop of `base64_decode`: `n`, `n_idx` and `dest` where it ends, `none` where -1 is
returned; `n` has 32 bits. -/
def base64DecodeLoop (destlen n nIdx : ℕ) (dest : Bytes) :
    Bytes → Checked (Option (ℕ × ℕ × Bytes))
  | [] => return some (n, nIdx, dest)
  | c :: src => do
    let v ← readAt base64DecodeTable c.toNat
    if v = 255 then return none
    else if v = 64 then base64DecodeLoop destlen n nIdx dest src
    else if v = 65 then return some (n, nIdx, dest)
    else
      let n := (n * 64 + v) % 2 ^ 32
      if nIdx + 1 = 4 then
        if destlen < 3 ∨ dest.length > destlen - 3 then return none
        else
          let dest ← store destlen dest (UInt8.ofNat (n / 65536))
          let dest ← store destlen dest (UInt8.ofNat (n / 256 % 256))
          let dest ← store destlen dest (UInt8.ofNat (n % 256))
          base64DecodeLoop destlen 0 0 dest src
      else base64DecodeLoop destlen n (nIdx + 1) dest src

/-- The bits that are left over. -/
def base64DecodeTail (destlen n nIdx : ℕ) (dest : Bytes) : Checked (Option Bytes) :=
  match nIdx with
  | 1 => return none
  | 2 =>
    if destlen < 1 ∨ dest.length > destlen - 1 then return none
    else return some (← store destlen dest (UInt8.ofNat (n / 16)))
  | 3 =>
    if destlen < 2 ∨ dest.length > destlen - 2 then return none
    else do
      let dest ← store destlen dest (UInt8.ofNat (n / 1024))
      return some (← store destlen dest (UInt8.ofNat (n / 4)))
  | _ => return some dest

/-- `base64_decode`; `none` is -1. -/
def base64Decode (destlen : ℕ) (src : Bytes) : Checked (Option Bytes) :=
  if destlen > intMax then return none
  else do
    match ← base64DecodeLoop destlen 0 0 [] src with
    | none => return none
    | some (n, nIdx, dest) =>
      match ← base64DecodeTail destlen n nIdx dest with
      | none => return none
      | some dest =>
        torAssert (dest.length ≤ destlen) .assertion
        return some dest

/-! ## What is encoded -/

section Encoded

variable {destlen : ℕ} {multiline : Bool} {src : Bytes}

theorem readAt_encodeTable {n : ℕ} (h : n < 64) :
    readAt base64EncodeTable n = .ok (base64Char n) := by
  have hall : ∀ n : Fin 64, base64EncodeTable[n.val]? = some (base64Char n) := by
    decide +kernel
  exact readAt_eq (hall ⟨n, h⟩)

theorem encodeN_eq (n idx : ℕ) (out : Base64Out) : encodeN destlen multiline n idx out
    = encodeChar destlen multiline out (base64Char (n / 2 ^ ((3 - idx) * 6) % 64)) := by
  unfold encodeN
  rw [readAt_encodeTable (Nat.mod_lt _ (by decide)), ok_bind]

/-- A byte that does not fill a group. -/
theorem base64EncodeLoop_short {n nIdx : ℕ} {b : UInt8} (hidx : nIdx + 1 ≠ 3)
    (hn : n * 256 + b.toNat < 2 ^ 32) (out : Base64Out) (usrc : Bytes) :
    base64EncodeLoop destlen multiline n nIdx out (b :: usrc)
      = base64EncodeLoop destlen multiline (n * 256 + b.toNat) (nIdx + 1) out usrc := by
  rw [base64EncodeLoop]
  rw [if_neg hidx, Nat.mod_eq_of_lt hn]

/-- The third byte of a group. -/
theorem base64EncodeLoop_third {n : ℕ} {b : UInt8} (hn : n * 256 + b.toNat < 2 ^ 32)
    (out : Base64Out) (usrc : Bytes) :
    base64EncodeLoop destlen multiline n 2 out (b :: usrc)
      = [base64Char ((n * 256 + b.toNat) / 262144 % 64), base64Char ((n * 256 + b.toNat) / 4096 % 64),
          base64Char ((n * 256 + b.toNat) / 64 % 64), base64Char ((n * 256 + b.toNat) % 64)].foldlM
        (encodeChar destlen multiline) out
        >>= fun out => base64EncodeLoop destlen multiline 0 0 out usrc := by
  rw [base64EncodeLoop]
  rw [if_pos rfl, Nat.mod_eq_of_lt hn]
  simp only [encodeN_eq, List.foldlM_cons, List.foldlM_nil, bind_assoc, pure_bind, Nat.reduceSub,
    Nat.reduceMul, Nat.reducePow, Nat.div_one]

/-- One byte is left over. -/
theorem base64EncodeTail_one {n : ℕ} (hn : n * 16 < 2 ^ 32) (out : Base64Out) :
    base64EncodeTail destlen multiline n 1 out
      = [base64Char (n * 16 / 64 % 64), base64Char (n * 16 % 64), byte '=', byte '='].foldlM
        (encodeChar destlen multiline) out := by
  unfold base64EncodeTail
  dsimp only
  rw [Nat.mod_eq_of_lt hn]
  simp only [encodeN_eq, encodePad, List.foldlM_cons, List.foldlM_nil, bind_pure, Nat.reduceSub,
    Nat.reduceMul, Nat.reducePow, Nat.div_one]

/-- Two bytes are left over. -/
theorem base64EncodeTail_two {n : ℕ} (hn : n * 4 < 2 ^ 32) (out : Base64Out) :
    base64EncodeTail destlen multiline n 2 out
      = [base64Char (n * 4 / 4096 % 64), base64Char (n * 4 / 64 % 64), base64Char (n * 4 % 64),
          byte '='].foldlM (encodeChar destlen multiline) out := by
  unfold base64EncodeTail
  dsimp only
  rw [Nat.mod_eq_of_lt hn]
  simp only [encodeN_eq, encodePad, List.foldlM_cons, List.foldlM_nil, bind_pure, Nat.reduceSub,
    Nat.reduceMul, Nat.reducePow, Nat.div_one]

/-- Three bytes at a time: the characters of `base64Chars`, one after the other. -/
theorem encodeLoop_tail (destlen : ℕ) (multiline : Bool) : ∀ (src : Bytes) (out : Base64Out),
    (base64EncodeLoop destlen multiline 0 0 out src >>= fun r =>
      base64EncodeTail destlen multiline r.1 r.2.1 r.2.2)
      = (base64Chars src).foldlM (encodeChar destlen multiline) out
  | [], out => rfl
  | [a], out => by
    have ha := UInt8.toNat_lt a
    rw [base64EncodeLoop_short (by decide) (by omega), base64EncodeLoop]
    change base64EncodeTail destlen multiline (0 * 256 + a.toNat) 1 out = _
    rw [base64EncodeTail_one (by omega), Nat.zero_mul, Nat.zero_add]
    rfl
  | [a, b], out => by
    have ha := UInt8.toNat_lt a
    have hb := UInt8.toNat_lt b
    rw [base64EncodeLoop_short (by decide) (by omega),
      base64EncodeLoop_short (by decide) (by omega), base64EncodeLoop]
    change base64EncodeTail destlen multiline ((0 * 256 + a.toNat) * 256 + b.toNat) 2 out = _
    rw [base64EncodeTail_two (by omega), Nat.zero_mul, Nat.zero_add]
    rfl
  | a :: b :: c :: src, out => by
    have ha := UInt8.toNat_lt a
    have hb := UInt8.toNat_lt b
    have hc := UInt8.toNat_lt c
    rw [base64EncodeLoop_short (by decide) (by omega),
      base64EncodeLoop_short (by decide) (by omega), base64EncodeLoop_third (by omega), Nat.zero_mul,
      Nat.zero_add, bind_assoc]
    simp only [encodeLoop_tail destlen multiline src]
    rw [← List.foldlM_append]
    rfl

theorem length_base64Chars_eq : ∀ src : Bytes, (base64Chars src).length = (src.length + 2) / 3 * 4
  | [] => rfl
  | [_] => by simp [base64Chars]
  | [_, _] => by simp [base64Chars]
  | a :: b :: c :: src => by
    have ih := length_base64Chars_eq src
    simp only [base64Chars, List.length_cons, ih]
    omega

/-- A newline for every 64 characters that are begun. -/
theorem length_encodeLines_eq : ∀ (chs : Bytes) {linelen : ℕ}, linelen < 64 →
    (encodeLines linelen chs).length = chs.length + (linelen + chs.length + 63) / 64
  | [], linelen, h => by
    rw [encodeLines]
    split
    · simp only [List.length_singleton, List.length_nil]
      omega
    · simp only [List.length_nil]
      omega
  | ch :: chs, linelen, h => by
    rw [encodeLines]
    split
    · simp only [List.length_cons, length_encodeLines_eq chs (show 0 < 64 by decide)]
      omega
    · simp only [List.length_cons, length_encodeLines_eq chs (show linelen + 1 < 64 by omega)]
      omega

/-- One line. -/
theorem foldlM_single : ∀ (chs : Bytes) (out : Base64Out), out.dest.length + chs.length ≤ destlen →
    chs.foldlM (encodeChar destlen false) out = .ok ⟨out.dest ++ chs, out.linelen⟩
  | [], out, h => by
    rw [List.foldlM_nil, List.append_nil]
    rfl
  | ch :: chs, out, h => by
    rw [List.length_cons] at h
    have hchar : encodeChar destlen false out ch = .ok ⟨out.dest ++ [ch], out.linelen⟩ := by
      unfold encodeChar
      rw [store_eq (by omega)]
      rfl
    rw [List.foldlM_cons, hchar, ok_bind, foldlM_single chs _
      (by simp only [List.length_append, List.length_singleton]; omega)]
    simp only [List.append_assoc, List.singleton_append]

/-- Lines of 64 characters; the last newline is still to come. -/
theorem foldlM_lines : ∀ (chs : Bytes) (out : Base64Out),
    out.dest.length + (encodeLines out.linelen chs).length ≤ destlen →
    ∃ out', chs.foldlM (encodeChar destlen true) out = .ok out'
      ∧ out.dest ++ encodeLines out.linelen chs
        = if out'.linelen ≠ 0 then out'.dest ++ [byte '\n'] else out'.dest
  | [], out, h => by
    refine ⟨out, rfl, ?_⟩
    rw [encodeLines]
    split
    · rfl
    · exact List.append_nil _
  | ch :: chs, out, h => by
    rw [encodeLines] at h ⊢
    by_cases hline : (out.linelen + 1) % 64 = 0
    · rw [if_pos hline] at h ⊢
      simp only [List.length_cons] at h
      have hchar : encodeChar destlen true out ch
          = .ok ⟨out.dest ++ [ch] ++ [byte '\n'], 0⟩ := by
        unfold encodeChar
        rw [store_eq (by omega), ok_bind, if_pos rfl, if_pos hline,
          store_eq (by simp only [List.length_append, List.length_singleton]; omega)]
        rfl
      obtain ⟨out', hfold, heq⟩ := foldlM_lines chs ⟨out.dest ++ [ch] ++ [byte '\n'], 0⟩
        (by simp only [List.length_append, List.length_singleton]; omega)
      refine ⟨out', ?_, ?_⟩
      · rw [List.foldlM_cons, hchar, ok_bind, hfold]
      · rw [← heq]
        simp only [List.append_assoc, List.cons_append, List.nil_append]
    · rw [if_neg hline] at h ⊢
      rw [List.length_cons] at h
      have hchar : encodeChar destlen true out ch = .ok ⟨out.dest ++ [ch], out.linelen + 1⟩ := by
        unfold encodeChar
        rw [store_eq (by omega), ok_bind, if_pos rfl, if_neg hline]
        rfl
      obtain ⟨out', hfold, heq⟩ := foldlM_lines chs ⟨out.dest ++ [ch], out.linelen + 1⟩
        (by simp only [List.length_append, List.length_singleton]; omega)
      refine ⟨out', ?_, ?_⟩
      · rw [List.foldlM_cons, hchar, ok_bind, hfold]
      · rw [← heq]
        simp only [List.append_assoc, List.cons_append, List.nil_append]

/-- The text of the source: in one line, or in lines of 64 characters. -/
def base64Text (multiline : Bool) (src : Bytes) : Bytes :=
  if multiline then Tor.base64Encode src else base64Chars src

theorem base64EncodeSize_eq {size : ℕ} (h : base64EncodeSize src.length multiline = .ok size) :
    size = (base64Text multiline src).length ∧ size < intMax ∧ src.length < intMax := by
  unfold base64EncodeSize at h
  obtain ⟨_, hsrc, h⟩ := bind_eq_ok.mp h
  obtain ⟨_, -, h⟩ := bind_eq_ok.mp h
  obtain ⟨_, hmax, h⟩ := bind_eq_ok.mp h
  rw [torAssert_eq_ok] at hsrc hmax
  obtain rfl := Except.ok.inj h
  refine ⟨?_, hmax.1, hsrc⟩
  cases multiline with
  | false => exact (length_base64Chars_eq src).symm
  | true =>
    change _ = (encodeLines 0 (base64Chars src)).length
    rw [length_encodeLines_eq _ (by decide), length_base64Chars_eq, Nat.zero_add]
    rfl

/-- **`base64_encode`** stays in its buffers. -/
theorem base64Encode_eq {size : ℕ} (hsize : base64EncodeSize src.length multiline = .ok size)
    (hdest : size < destlen) (hceiling : destlen ≤ sizeTCeiling) :
    base64Encode destlen multiline src = .ok (some (base64Text multiline src)) := by
  obtain ⟨hlength, hmax, -⟩ := base64EncodeSize_eq hsize
  have hall : ∃ out, base64EncodeAll destlen multiline src = .ok out
      ∧ base64Text multiline src
        = if multiline ∧ out.linelen ≠ 0 then out.dest ++ [byte '\n'] else out.dest := by
    have hloop := encodeLoop_tail destlen multiline src ⟨[], 0⟩
    cases multiline with
    | false =>
      have hlength' : size = (base64Chars src).length := hlength
      refine ⟨⟨base64Chars src, 0⟩, ?_, rfl⟩
      unfold base64EncodeAll
      refine hloop.trans ?_
      rw [foldlM_single _ _ (by simp only [List.length_nil]; omega)]
      rfl
    | true =>
      have hlength' : size = (encodeLines 0 (base64Chars src)).length := hlength
      obtain ⟨out, hfold, heq⟩ := foldlM_lines (base64Chars src) ⟨[], 0⟩
        (show 0 + (encodeLines 0 (base64Chars src)).length ≤ destlen by omega)
      refine ⟨out, hloop.trans hfold, ?_⟩
      have htext : base64Text true src
          = if out.linelen ≠ 0 then out.dest ++ [byte '\n'] else out.dest := heq
      simpa using htext
  obtain ⟨out, hout, htext⟩ := hall
  have hfinal : endLine destlen multiline out = .ok (base64Text multiline src) := by
    unfold endLine
    by_cases hlast : multiline ∧ out.linelen ≠ 0
    · rw [if_pos hlast] at htext ⊢
      have := congrArg List.length htext
      rw [List.length_append, List.length_singleton] at this
      rw [store_eq (by omega), htext]
    · rw [if_neg hlast] at htext ⊢
      rw [htext]
  unfold base64Encode
  rw [hsize, ok_bind, if_neg (by omega), if_neg (by omega), if_neg (by omega), hout, ok_bind, hfinal,
    ok_bind, torAssert_pos hlength.symm, ok_bind, store_eq (by omega)]
  rfl

end Encoded

/-! ## What is decoded -/

section Decoded

variable {destlen : ℕ} {src dest : Bytes}

/-- The table and `base64Value` say the same. -/
theorem decodeTable_eq (c : UInt8) : readAt base64DecodeTable c.toNat = .ok
    (if c = byte '=' then 65
      else if c = byte ' ' || c = byte '\t' || c = byte '\n' || c = 11 || c = byte '\r' then 64
      else (base64Value c).getD 255) := by
  have hall : ∀ n : Fin 256, base64DecodeTable[n.val]? = some
      (if UInt8.ofNat n = byte '=' then 65
        else if UInt8.ofNat n = byte ' ' || UInt8.ofNat n = byte '\t' || UInt8.ofNat n = byte '\n'
          || UInt8.ofNat n = 11 || UInt8.ofNat n = byte '\r' then 64
        else (base64Value (UInt8.ofNat n)).getD 255) := by decide +kernel
  have hc := hall ⟨c.toNat, UInt8.toNat_lt c⟩
  rw [UInt8.ofNat_toNat] at hc
  exact readAt_eq hc

theorem base64Value_lt {c : UInt8} {v : ℕ} (h : base64Value c = some v) : v < 64 := by
  have hall : ∀ n : Fin 256, ∀ v ∈ base64Value (UInt8.ofNat n), v < 64 := by decide +kernel
  have hc := hall ⟨c.toNat, UInt8.toNat_lt c⟩
  rw [UInt8.ofNat_toNat] at hc
  exact hc v h

/-- The leftover bits, with room for them. -/
theorem base64DecodeTail_eq {n count : ℕ} {out : Bytes} (h : base64Rest n count = some out)
    (hdest : dest.length + out.length ≤ destlen) :
    base64DecodeTail destlen n count dest = .ok (some (dest ++ out)) := by
  match count with
  | 0 =>
    obtain rfl := Option.some.inj h
    rw [List.append_nil]
    rfl
  | 1 => exact nomatch h
  | 2 =>
    obtain rfl := Option.some.inj h
    rw [List.length_singleton] at hdest
    rw [base64DecodeTail, if_neg (by omega), store_eq (by omega)]
    rfl
  | 3 =>
    obtain rfl := Option.some.inj h
    simp only [List.length_cons, List.length_nil] at hdest
    rw [base64DecodeTail, if_neg (by omega), store_eq (by omega), ok_bind,
      store_eq (by simp only [List.length_append, List.length_singleton]; omega)]
    simp only [ok_bind, List.append_assoc, List.cons_append, List.nil_append]
    rfl
  | _ + 4 =>
    obtain rfl := Option.some.inj h
    rw [List.append_nil]
    rfl

/-- With room for what is decoded, the buffer makes no difference. -/
theorem base64DecodeLoop_eq (src : Bytes) {n count : ℕ} {dest out : Bytes}
    (h : base64Loop n count src = some out) (hcount : count < 4) (hn : n < 64 ^ count)
    (hdest : dest.length + out.length ≤ destlen) :
    ∃ n' count' dest', base64DecodeLoop destlen n count dest src = .ok (some (n', count', dest'))
      ∧ base64DecodeTail destlen n' count' dest' = .ok (some (dest ++ out)) := by
  induction src generalizing n count dest out with
  | nil => exact ⟨n, count, dest, rfl, base64DecodeTail_eq h hdest⟩
  | cons c src ih =>
    have htable := decodeTable_eq c
    rw [base64Loop] at h
    rw [base64DecodeLoop]
    by_cases hpad : c = byte '='
    · rw [if_pos hpad] at h htable
      rw [htable, ok_bind, if_neg (by decide), if_neg (by decide), if_pos rfl]
      exact ⟨n, count, dest, rfl, base64DecodeTail_eq h hdest⟩
    · rw [if_neg hpad] at h htable
      split at h
      · next hblank =>
        rw [if_pos hblank] at htable
        rw [htable, ok_bind, if_neg (by decide), if_pos rfl]
        exact ih h hcount hn hdest
      · next hblank =>
        rw [if_neg hblank] at htable
        split at h
        · cases h
        · next v hv =>
          have hlt := base64Value_lt hv
          rw [hv, Option.getD_some] at htable
          rw [htable, ok_bind, if_neg (by omega), if_neg (by omega), if_neg (by omega)]
          dsimp only
          have hpow : 64 ^ count ≤ 64 ^ 3 := Nat.pow_le_pow_right (by decide) (by omega)
          have hbits : (n * 64 + v) % 2 ^ 32 = n * 64 + v := Nat.mod_eq_of_lt (by omega)
          rw [hbits]
          split at h
          · next hthree =>
            obtain ⟨out', hout', rfl⟩ := Option.map_eq_some_iff.mp h
            simp only [List.length_cons] at hdest
            rw [if_pos (by omega), if_neg (by omega), store_eq (by omega), ok_bind,
              store_eq (by simp only [List.length_append, List.length_singleton]; omega), ok_bind,
              store_eq (by simp only [List.length_append, List.length_singleton]; omega), ok_bind]
            obtain ⟨n', count', dest', hloop, htail⟩ := ih hout'
              (by decide) (by decide)
              (show (dest ++ [UInt8.ofNat ((n * 64 + v) / 65536)]
                ++ [UInt8.ofNat ((n * 64 + v) / 256 % 256)] ++ [UInt8.ofNat ((n * 64 + v) % 256)]).length
                  + out'.length ≤ destlen by
                simp only [List.length_append, List.length_singleton]
                omega)
            refine ⟨n', count', dest', hloop, ?_⟩
            rw [htail]
            have hmod : ∀ k : ℕ, UInt8.ofNat (k % 256) = UInt8.ofNat k := by
              intro k
              rw [← UInt8.toNat_inj, UInt8.toNat_ofNat', UInt8.toNat_ofNat', Nat.mod_mod]
            simp only [hmod, List.append_assoc, List.cons_append, List.nil_append]
          · next hthree =>
            rw [if_neg (by omega)]
            exact ih h (by omega)
              (by rw [pow_succ]; omega) hdest

/-- **`base64_decode`** with just the room that is needed. -/
theorem base64Decode_eq {out : Bytes} (h : Tor.base64Decode src = some out)
    (hmax : out.length ≤ intMax) : base64Decode out.length src = .ok (some out) := by
  obtain ⟨n, count, dest, hloop, htail⟩ := base64DecodeLoop_eq src h (by decide)
    (by decide) (show ([] : Bytes).length + out.length ≤ out.length by simp)
  unfold base64Decode
  rw [if_neg (by omega), hloop, ok_bind]
  dsimp only
  rw [htail, ok_bind]
  dsimp only
  rw [List.nil_append, torAssert_pos le_rfl]
  rfl

/-- The room is checked before it is used. -/
theorem base64DecodeLoop_inRange : ∀ (src : Bytes) (n count : ℕ) {dest : Bytes},
    dest.length ≤ destlen → ∃ r, base64DecodeLoop destlen n count dest src = .ok r
      ∧ ∀ s ∈ r, s.2.2.length ≤ destlen
  | [], n, count, dest, hdest => ⟨_, rfl, fun s hs => by
    obtain rfl := Option.some.inj hs
    exact hdest⟩
  | c :: src, n, count, dest, hdest => by
    rw [base64DecodeLoop, decodeTable_eq, ok_bind]
    generalize (if c = byte '=' then 65
      else if c = byte ' ' || c = byte '\t' || c = byte '\n' || c = 11 || c = byte '\r' then 64
      else (base64Value c).getD 255) = v
    split
    · exact ⟨none, rfl, fun _ hs => nomatch hs⟩
    · split
      · exact base64DecodeLoop_inRange src _ _ hdest
      · split
        · refine ⟨_, rfl, fun s hs => ?_⟩
          obtain rfl := Option.some.inj hs
          exact hdest
        · dsimp only
          split
          · split
            · exact ⟨none, rfl, fun _ hs => nomatch hs⟩
            · rw [store_eq (by omega), ok_bind,
                store_eq (by simp only [List.length_append, List.length_singleton]; omega), ok_bind,
                store_eq (by simp only [List.length_append, List.length_singleton]; omega), ok_bind]
              exact base64DecodeLoop_inRange src _ _
                (by simp only [List.length_append, List.length_singleton]; omega)
          · exact base64DecodeLoop_inRange src _ _ hdest

theorem base64DecodeTail_inRange (n count : ℕ) (hdest : dest.length ≤ destlen) :
    ∃ r, base64DecodeTail destlen n count dest = .ok r ∧ ∀ d ∈ r, d.length ≤ destlen := by
  unfold base64DecodeTail
  split
  · exact ⟨none, rfl, fun _ hs => (by cases hs)⟩
  · split
    · exact ⟨none, rfl, fun _ hs => (by cases hs)⟩
    · rw [store_eq (by omega)]
      refine ⟨_, rfl, fun d hd => ?_⟩
      obtain rfl := Option.some.inj hd
      simp only [List.length_append, List.length_singleton]
      omega
  · split
    · exact ⟨none, rfl, fun _ hs => (by cases hs)⟩
    · rw [store_eq (by omega), ok_bind,
        store_eq (by simp only [List.length_append, List.length_singleton]; omega)]
      refine ⟨_, rfl, fun d hd => ?_⟩
      obtain rfl := Option.some.inj hd
      simp only [List.length_append, List.length_singleton]
      omega
  · refine ⟨_, rfl, fun d hd => ?_⟩
    obtain rfl := Option.some.inj hd
    exact hdest

/-- **`base64_decode`** has no fault. -/
theorem base64Decode_inRange (destlen : ℕ) (src : Bytes) : InRange (base64Decode destlen src) := by
  unfold base64Decode
  split
  · exact inRange_ok _
  · obtain ⟨r, hloop, hr⟩ := base64DecodeLoop_inRange src 0 0
      (show ([] : Bytes).length ≤ destlen from Nat.zero_le _)
    rw [hloop, ok_bind]
    cases r with
    | none => exact inRange_ok _
    | some s =>
      obtain ⟨n, count, dest⟩ := s
      obtain ⟨d, htail, hd⟩ := base64DecodeTail_inRange n count (hr _ rfl)
      dsimp only
      rw [htail, ok_bind]
      cases d with
      | none => exact inRange_ok _
      | some d => exact inRange_assert_bind fun _ => inRange_ok _

theorem base64EncodeSize_inRange (srclen : ℕ) (multiline : Bool) :
    InRange (base64EncodeSize srclen multiline) :=
  inRange_assert_bind fun _ => inRange_assert_bind fun _ => inRange_assert_bind fun _ => inRange_ok _

theorem base64Encode_inRange (destlen : ℕ) (multiline : Bool) (src : Bytes) :
    InRange (base64Encode destlen multiline src) := by
  cases hsize : base64EncodeSize src.length multiline with
  | error e =>
    unfold base64Encode
    rw [hsize]
    have hrange := base64EncodeSize_inRange src.length multiline
    rw [hsize] at hrange
    exact fun h => hrange (congrArg Except.error (Except.error.inj h))
  | ok size =>
    by_cases h : size < destlen ∧ destlen ≤ sizeTCeiling
    · rw [base64Encode_eq hsize h.1 h.2]
      exact inRange_ok _
    · unfold base64Encode
      rw [hsize, ok_bind]
      by_cases hshort : destlen < size + 1
      · rw [if_pos hshort]
        exact inRange_ok _
      · rw [if_neg hshort, if_pos (by omega)]
        exact inRange_ok _

/-! ## Without padding -/

/-- The loop goes up to the NUL. -/
theorem stripPadding_eq : ∀ (text out rest : Bytes), (∀ b ∈ text, b ≠ 0) →
    stripPadding out (text ++ 0 :: rest) = .ok (out ++ text.filter isUnpadded)
  | [], out, rest, _ => by
    rw [List.nil_append, stripPadding, if_pos rfl, List.filter_nil, List.append_nil]
    rfl
  | b :: text, out, rest, h => by
    rw [List.cons_append, stripPadding, if_neg (h b List.mem_cons_self)]
    have htext : ∀ b ∈ text, b ≠ 0 := fun b hb => h b (List.mem_cons_of_mem _ hb)
    by_cases hpad : b = byte '=' ∨ b = byte '\n'
    · rw [if_pos hpad, stripPadding_eq text out rest htext, List.filter_cons_of_neg]
      unfold isUnpadded
      rw [Bool.and_eq_true, decide_eq_true_eq, decide_eq_true_eq]
      exact fun hb => hpad.elim hb.1 hb.2
    · rw [if_neg hpad, stripPadding_eq text _ rest htext, List.filter_cons_of_pos,
        List.append_assoc, List.singleton_append]
      unfold isUnpadded
      rw [Bool.and_eq_true, decide_eq_true_eq, decide_eq_true_eq]
      exact not_or.mp hpad

theorem base64Chars_ne_zero {b : UInt8} (h : b ∈ base64Chars src) : b ≠ 0 := by
  rcases mem_base64Chars h with rfl | ⟨n, hn, rfl⟩
  · decide
  · exact (base64Char_facts hn).2.2.2.2.1

/-- **`base64_encode_nopad`** stays in its buffers. -/
theorem base64EncodeNopad_eq {size : ℕ} (hsize : base64EncodeSize src.length false = .ok size)
    (hdest : size < destlen) (hceiling : destlen ≤ sizeTCeiling) :
    base64EncodeNopad destlen src = .ok (some (Tor.base64EncodeNopad src)) := by
  obtain ⟨hlength, hmax, -⟩ := base64EncodeSize_eq hsize
  have hchars : size = (base64Chars src).length := hlength
  unfold base64EncodeNopad
  rw [base64Encode_eq hsize hdest hceiling, ok_bind]
  change (if (base64Chars src).length = 0 then _ else _) = _
  by_cases hempty : (base64Chars src).length = 0
  · rw [if_pos hempty]
    unfold Tor.base64EncodeNopad
    rw [List.length_eq_zero_iff.mp hempty]
    exact congrArg (fun text => Except.ok (some text)) (List.length_eq_zero_iff.mp hempty)
  · rw [if_neg hempty]
    obtain ⟨k, hk⟩ : ∃ k, destlen - (base64Chars src).length = k + 1 :=
      ⟨destlen - (base64Chars src).length - 1, by omega⟩
    have hbuffer : base64Text false src ++ List.replicate (destlen - (base64Text false src).length) 0
        = base64Chars src ++ 0 :: List.replicate k 0 := by
      change base64Chars src ++ List.replicate (destlen - (base64Chars src).length) 0 = _
      rw [hk, List.replicate_succ]
    have hzero : readAt (base64Chars src ++ 0 :: List.replicate k 0) (base64Chars src).length
        = .ok 0 := by
      refine readAt_eq ?_
      rw [List.getElem?_append_right le_rfl, Nat.sub_self]
      rfl
    have hfilter := List.length_filter_le isUnpadded (base64Chars src)
    dsimp only
    rw [hbuffer, torAssert_pos (show (base64Text false src).length < destlen by omega), ok_bind]
    change (readAt _ (base64Chars src).length >>= _) = _
    rw [hzero, ok_bind, torAssert_pos rfl, ok_bind,
      stripPadding_eq _ [] _ fun b hb => base64Chars_ne_zero hb, ok_bind, List.nil_append,
      torAssert_pos (by omega)]
    rfl

theorem base64EncodeNopad_inRange (destlen : ℕ) (src : Bytes) :
    InRange (base64EncodeNopad destlen src) := by
  cases hsize : base64EncodeSize src.length false with
  | error e =>
    unfold base64EncodeNopad base64Encode
    rw [hsize]
    have hrange := base64EncodeSize_inRange src.length false
    rw [hsize] at hrange
    exact fun h => hrange (congrArg Except.error (Except.error.inj h))
  | ok size =>
    by_cases h : size < destlen ∧ destlen ≤ sizeTCeiling
    · rw [base64EncodeNopad_eq hsize h.1 h.2]
      exact inRange_ok _
    · unfold base64EncodeNopad base64Encode
      rw [hsize, ok_bind]
      by_cases hshort : destlen < size + 1
      · rw [if_pos hshort]
        exact inRange_ok _
      · rw [if_neg hshort, if_pos (by omega)]
        exact inRange_ok _

end Decoded

/-! ## Round trips -/

theorem base64Decode_text (multiline : Bool) (src : Bytes) :
    Tor.base64Decode (base64Text multiline src) = some src := by
  cases multiline with
  | false => exact base64Loop_chars src
  | true => exact Tor.base64Decode_encode src

/-- **What is encoded is decoded again**, in a buffer of just the length of the source, and the
encoded text has the length that was announced. No function reads or writes outside of a buffer or a
table, whatever its arguments are. -/
theorem binascii_round_trips (src : Bytes) :
    (∀ destlen, src.length ≤ intMax → 2 * src.length + 1 ≤ destlen → destlen < sizeTCeiling →
      ∃ text, base16Encode destlen src = .ok text ∧ text.length = 2 * src.length
        ∧ base16Decode src.length text = .ok (some src))
    ∧ (∀ destlen size, base32EncodedSize src.length = .ok size → size ≤ destlen →
      destlen < sizeTCeiling →
      ∃ text, base32Encode destlen src = .ok text ∧ size = text.length + 1
        ∧ base32Decode src.length text = .ok (some src))
    ∧ (∀ destlen multiline size, base64EncodeSize src.length multiline = .ok size →
      size < destlen → destlen ≤ sizeTCeiling →
      ∃ text, base64Encode destlen multiline src = .ok (some text) ∧ size = text.length
        ∧ base64Decode src.length text = .ok (some src))
    ∧ (∀ destlen size, base64EncodeSize src.length false = .ok size → size < destlen →
      destlen ≤ sizeTCeiling →
      ∃ text, base64EncodeNopad destlen src = .ok (some text) ∧ text.length ≤ size
        ∧ base64Decode src.length text = .ok (some src))
    ∧ ∀ destlen multiline,
      InRange (base16Encode destlen src) ∧ InRange (base16Decode destlen src)
      ∧ InRange (base32EncodedSize src.length) ∧ InRange (base32Encode destlen src)
      ∧ InRange (base32Decode destlen src) ∧ InRange (base64EncodeSize src.length multiline)
      ∧ InRange (base64Encode destlen multiline src) ∧ InRange (base64EncodeNopad destlen src)
      ∧ InRange (base64Decode destlen src) := by
  refine ⟨?_, ?_, ?_, ?_, ?_⟩
  · intro destlen hmax hdest hceiling
    have hlength := length_base16Encode src
    refine ⟨Tor.base16Encode src, base16Encode_eq ?_ hdest hceiling, hlength, ?_⟩
    · unfold intMax at hmax
      unfold sizeTCeiling
      omega
    · rw [base16Decode_eq, if_neg (by omega), base16Decode_encode]
  · intro destlen size hsize hdest hceiling
    obtain ⟨htext, hlength⟩ := base32Encode_eq hsize hdest hceiling
    exact ⟨base32Text src, htext, hlength, base32Decode_text hsize⟩
  · intro destlen multiline size hsize hdest hceiling
    obtain ⟨hlength, -, hmax⟩ := base64EncodeSize_eq hsize
    exact ⟨base64Text multiline src, base64Encode_eq hsize hdest hceiling, hlength,
      base64Decode_eq (base64Decode_text multiline src) hmax.le⟩
  · intro destlen size hsize hdest hceiling
    obtain ⟨hlength, -, hmax⟩ := base64EncodeSize_eq hsize
    refine ⟨Tor.base64EncodeNopad src, base64EncodeNopad_eq hsize hdest hceiling, ?_,
      base64Decode_eq (base64Decode_nopad src) hmax.le⟩
    rw [hlength]
    exact List.length_filter_le isUnpadded (base64Chars src)
  · intro destlen multiline
    exact ⟨base16Encode_inRange destlen src, base16Decode_inRange destlen src,
      base32EncodedSize_inRange src.length, base32Encode_inRange destlen src,
      base32Decode_inRange destlen src, base64EncodeSize_inRange src.length multiline,
      base64Encode_inRange destlen multiline src, base64EncodeNopad_inRange destlen src,
      base64Decode_inRange destlen src⟩

/-- Five bytes in each encoding. -/
theorem binascii_round_trips_five :
    (∃ text, base16Encode 11 [116, 111, 114, 0, 255] = .ok text ∧ text.length = 10
      ∧ base16Decode 5 text = .ok (some [116, 111, 114, 0, 255]))
    ∧ (∃ text, base32Encode 9 [116, 111, 114, 0, 255] = .ok text ∧ 9 = text.length + 1
      ∧ base32Decode 5 text = .ok (some [116, 111, 114, 0, 255]))
    ∧ (∃ text, base64Encode 10 true [116, 111, 114, 0, 255] = .ok (some text) ∧ 9 = text.length
      ∧ base64Decode 5 text = .ok (some [116, 111, 114, 0, 255]))
    ∧ ∃ text, base64EncodeNopad 9 [116, 111, 114, 0, 255] = .ok (some text) ∧ text.length ≤ 8
      ∧ base64Decode 5 text = .ok (some [116, 111, 114, 0, 255]) := by
  obtain ⟨h16, h32, h64, hnopad, -⟩ := binascii_round_trips [116, 111, 114, 0, 255]
  exact ⟨h16 11 (by decide) (by decide) (by decide), h32 9 9 rfl (by decide) (by decide),
    h64 10 true 9 rfl (by decide) (by decide), hnopad 9 8 rfl (by decide) (by decide)⟩

/-- `base16_encode` takes 2^31 bytes, and `base16_decode` does not give as many. -/
theorem base16_limits_differ : ¬ ∀ (destlen : ℕ) (src : Bytes), src.length < sizeTCeiling / 2 - 1 →
    2 * src.length + 1 ≤ destlen → destlen < sizeTCeiling →
    ∃ text, base16Encode destlen src = .ok text
      ∧ base16Decode src.length text = .ok (some src) := by
  intro h
  obtain ⟨src, hlength⟩ : ∃ src : Bytes, src.length = 2147483648 :=
    ⟨List.replicate 2147483648 0, List.length_replicate⟩
  obtain ⟨text, -, hdecode⟩ := h 4294967297 src (by rw [hlength]; decide) (by rw [hlength])
    (by decide)
  rw [base16Decode_eq, if_pos (.inr (.inr (by rw [hlength]; decide)))] at hdecode
  exact nomatch Except.ok.inj hdecode

end Dittor.Tor.Binascii

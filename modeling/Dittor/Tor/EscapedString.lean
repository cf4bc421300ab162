import Mathlib
import Dittor.Tor.Base64

/-!
# Escaped strings (`escape.c`, `cstring.c`, `qstring.c`)

`esc_for_log` writes a string between double quotes, with backslashes in front of what is not plain
and three octal digits for what is not printable. `unescape_string` reads such a string twice: once
to find the quote that ends it, and once to decode it. What was escaped is read back, whatever stands
behind it (`unescapeString_escForLog`).
-/

namespace Dittor.Tor

open Dittor.Lib

/-- `TOR_ISPRINT` -/
def torIsPrint (c : UInt8) : Bool := 32 ≤ c.toNat ∧ c.toNat ≤ 126

/-- `TOR_ISODIGIT` -/
def torIsOdigit (c : UInt8) : Bool := byte '0' ≤ c ∧ c ≤ byte '7'

/-- `TOR_ISXDIGIT` -/
def torIsXdigit (c : UInt8) : Bool := (hexDecodeDigit c).isSome

/-! ## Escaping -/

/-- A digit of `%03o`. -/
def octalDigit (n : ℕ) : UInt8 := UInt8.ofNat (48 + n)

/-- What `esc_for_log` writes for a character. -/
def escChar (c : UInt8) : Bytes :=
  if c = byte '\\' ∨ c = byte '"' ∨ c = byte '\'' then [byte '\\', c]
  else if c = byte '\n' then [byte '\\', byte 'n']
  else if c = byte '\t' then [byte '\\', byte 't']
  else if c = byte '\r' then [byte '\\', byte 'r']
  else if torIsPrint c ∧ c.toNat < 127 then [c]
  else [byte '\\', octalDigit (c.toNat / 64), octalDigit (c.toNat / 8 % 8), octalDigit (c.toNat % 8)]

/-- `esc_for_log` of a string that is not `NULL`. -/
def escForLog (s : Bytes) : Bytes := byte '"' :: s.flatMap escChar ++ [byte '"']

/-! ## Unescaping -/

/-- Up to two more octal digits: their value behind `n`, and what follows. -/
def moreOctal (n : ℕ) : Bytes → ℕ × Bytes
  | [] => (n, [])
  | d :: cp =>
    if torIsOdigit d then
      match cp with
      | [] => (n * 8 + (d.toNat - 48), [])
      | e :: rest =>
        if torIsOdigit e then ((n * 8 + (d.toNat - 48)) * 8 + (e.toNat - 48), rest)
        else (n * 8 + (d.toNat - 48), e :: rest)
    else (n, d :: cp)

theorem length_moreOctal (n : ℕ) (cp : Bytes) : (moreOctal n cp).2.length ≤ cp.length := by
  unfold moreOctal
  split
  · exact le_rfl
  · split
    · split
      · simp
      · split
        · simp only [List.length_cons]
          omega
        · simp only [List.length_cons]
          omega
    · exact le_rfl

/-- The first loop of `unescape_string`: whether there is a quote at the end of the string. -/
def unescapeEnds : Bytes → Bool
  | [] => false
  | c :: cp =>
    if c = byte '\n' then false
    else if c = byte '"' then true
    else if c = byte '\\' then
      match cp with
      | [] => false
      | e :: cp =>
        if e = byte 'x' ∨ e = byte 'X' then
          match cp with
          | x1 :: x2 :: rest => if torIsXdigit x1 ∧ torIsXdigit x2 then unescapeEnds rest else false
          | _ => false
        else if torIsOdigit e then unescapeEnds (moreOctal 0 cp).2
        else if e = byte 'n' ∨ e = byte 'r' ∨ e = byte 't' ∨ e = byte '"' ∨ e = byte '\\'
            ∨ e = byte '\'' then
          unescapeEnds cp
        else false
    else unescapeEnds cp
termination_by s => s.length
decreasing_by
  · simp only [List.length_cons]
    omega
  · have := length_moreOctal 0 cp
    simp only [List.length_cons]
    omega
  · simp only [List.length_cons]
    omega
  · simp only [List.length_cons]
    omega

/-- The second loop of `unescape_string`: the decoded bytes, and what is behind the quote. -/
def unescapeDecode : Bytes → Option (Bytes × Bytes)
  | [] => none
  | c :: cp =>
    if c = byte '"' then some ([], cp)
    else if c = byte '\\' then
      match cp with
      | [] => none
      | e :: cp =>
        if e = byte 'n' then (unescapeDecode cp).map fun r => (byte '\n' :: r.1, r.2)
        else if e = byte 'r' then (unescapeDecode cp).map fun r => (byte '\r' :: r.1, r.2)
        else if e = byte 't' then (unescapeDecode cp).map fun r => (byte '\t' :: r.1, r.2)
        else if e = byte 'x' ∨ e = byte 'X' then
          match cp with
          | x1 :: x2 :: rest =>
            match hexDecodeDigit x1, hexDecodeDigit x2 with
            | some x1, some x2 =>
              (unescapeDecode rest).map fun r => (UInt8.ofNat (x1 * 16 + x2) :: r.1, r.2)
            | _, _ => none
          | _ => none
        else if torIsOdigit e then
          if (moreOctal (e.toNat - 48) cp).1 > 255 then none
          else
            (unescapeDecode (moreOctal (e.toNat - 48) cp).2).map fun r =>
              (UInt8.ofNat (moreOctal (e.toNat - 48) cp).1 :: r.1, r.2)
        else if e = byte '\'' ∨ e = byte '"' ∨ e = byte '\\' ∨ e = byte '?' then
          (unescapeDecode cp).map fun r => (e :: r.1, r.2)
        else none
    else (unescapeDecode cp).map fun r => (c :: r.1, r.2)
termination_by s => s.length
decreasing_by
  all_goals simp only [List.length_cons]
  all_goals try have := length_moreOctal (e.toNat - 48) cp
  all_goals omega

/-- `unescape_string`: the decoded bytes, and what is behind the string. -/
def unescapeString : Bytes → Option (Bytes × Bytes)
  | [] => none
  | c :: cp => if c = byte '"' ∧ unescapeEnds cp then unescapeDecode cp else none

/-! ## Quoted strings of the control port -/

/-- The loop of `get_qstring_length`: the characters up to the last quote as they are written, and
as they are decoded. -/
def qstringLength : Bytes → Option (ℕ × ℕ)
  | [] => none
  | c :: cp =>
    if c = byte '\\' then
      match cp with
      | [] => none
      | _ :: cp => (qstringLength cp).map fun r => (r.1 + 2, r.2 + 1)
    else if c = byte '"' then some (0, 0)
    else (qstringLength cp).map fun r => (r.1 + 1, r.2 + 1)

/-- `get_qstring_length`, with both quotes; `none` is -1. -/
def getQstringLength : Bytes → Option (ℕ × ℕ)
  | [] => none
  | c :: cp => if c ≠ byte '"' then none else (qstringLength cp).map fun r => (r.1 + 2, r.2)

/-- The loop of `decode_qstring`, with `n` characters up to `end`. -/
def qstringDecode : ℕ → Bytes → Bytes
  | 0, _ => []
  | _ + 1, [] => []
  | n + 1, c :: cp =>
    if c = byte '\\' then
      match cp with
      | [] => []
      | e :: cp => e :: qstringDecode (n - 1) cp
    else c :: qstringDecode n cp

/-- `decode_qstring` of a whole string: the decoded bytes, how many they are, and what is behind. -/
def decodeQstring (start : Bytes) : Option (Bytes × ℕ × Bytes) :=
  match getQstringLength start with
  | none => none
  | some (len, chars) => some (qstringDecode (len - 2) (start.drop 1), chars, start.drop len)

theorem length_decodeQstring {start val rest : Bytes} {len : ℕ}
    (h : decodeQstring start = some (val, len, rest)) : rest.length < start.length := by
  unfold decodeQstring at h
  split at h
  · exact nomatch h
  · next n chars hlength =>
    rw [Option.some.injEq, Prod.mk.injEq, Prod.mk.injEq] at h
    rw [← h.2.2, List.length_drop]
    unfold getQstringLength at hlength
    split at hlength
    · exact nomatch hlength
    · next c cp =>
      split at hlength
      · exact nomatch hlength
      · obtain ⟨r, -, heq⟩ := Option.map_eq_some_iff.mp hlength
        rw [Prod.mk.injEq] at heq
        rw [List.length_cons]
        omega

/-! ## Reading back -/

theorem octalDigit_facts {n : ℕ} (h : n < 8) :
    torIsOdigit (octalDigit n) = true ∧ (octalDigit n).toNat - 48 = n := by
  have hall : ∀ n : Fin 8, torIsOdigit (octalDigit n) = true ∧ (octalDigit n.val).toNat - 48 = n.val := by
    decide
  exact hall ⟨n, h⟩

/-- An octal digit is no letter. -/
theorem octalDigit_ne {n : ℕ} (h : n < 8) : octalDigit n ≠ byte 'x' ∧ octalDigit n ≠ byte 'X'
    ∧ octalDigit n ≠ byte 'n' ∧ octalDigit n ≠ byte 'r' ∧ octalDigit n ≠ byte 't' := by
  have hall : ∀ n : Fin 8, octalDigit n ≠ byte 'x' ∧ octalDigit n ≠ byte 'X'
      ∧ octalDigit n ≠ byte 'n' ∧ octalDigit n ≠ byte 'r' ∧ octalDigit n ≠ byte 't' := by decide
  exact hall ⟨n, h⟩

theorem moreOctal_digits {n d e : ℕ} (hd : d < 8) (he : e < 8) (rest : Bytes) :
    moreOctal n (octalDigit d :: octalDigit e :: rest) = ((n * 8 + d) * 8 + e, rest) := by
  obtain ⟨hd', hdval⟩ := octalDigit_facts hd
  obtain ⟨he', heval⟩ := octalDigit_facts he
  unfold moreOctal
  dsimp only
  rw [if_pos hd']
  rw [if_pos he', hdval, heval]

/-! The two loops at the characters that `esc_for_log` writes. -/

theorem unescapeEnds_quote (cp : Bytes) : unescapeEnds (byte '"' :: cp) = true := by
  rw [unescapeEnds.eq_def]
  rfl

theorem unescapeEnds_plain {c : UInt8} (h : c ≠ byte '\n' ∧ c ≠ byte '"' ∧ c ≠ byte '\\')
    (cp : Bytes) : unescapeEnds (c :: cp) = unescapeEnds cp := by
  rw [unescapeEnds.eq_def]
  dsimp only
  rw [if_neg h.1, if_neg h.2.1, if_neg h.2.2]

theorem unescapeEnds_octal {e : UInt8} (h : torIsOdigit e = true)
    (hx : ¬ (e = byte 'x' ∨ e = byte 'X')) (cp : Bytes) :
    unescapeEnds (byte '\\' :: e :: cp) = unescapeEnds (moreOctal 0 cp).2 := by
  rw [unescapeEnds.eq_def]
  dsimp only
  rw [if_neg (by decide), if_neg (by decide), if_pos rfl, if_neg hx, if_pos h]

theorem unescapeDecode_quote (cp : Bytes) : unescapeDecode (byte '"' :: cp) = some ([], cp) := by
  rw [unescapeDecode.eq_def]
  rfl

theorem unescapeDecode_plain {c : UInt8} (h : c ≠ byte '"' ∧ c ≠ byte '\\') (cp : Bytes) :
    unescapeDecode (c :: cp) = (unescapeDecode cp).map fun r => (c :: r.1, r.2) := by
  rw [unescapeDecode.eq_def]
  dsimp only
  rw [if_neg h.1, if_neg h.2]

theorem unescapeDecode_octal {e : UInt8} (h : torIsOdigit e = true) (hn : e ≠ byte 'n')
    (hr : e ≠ byte 'r') (ht : e ≠ byte 't') (hx : ¬ (e = byte 'x' ∨ e = byte 'X')) {cp rest : Bytes}
    {n : ℕ} (hn' : moreOctal (e.toNat - 48) cp = (n, rest)) (hmax : n ≤ 255) :
    unescapeDecode (byte '\\' :: e :: cp)
      = (unescapeDecode rest).map fun r => (UInt8.ofNat n :: r.1, r.2) := by
  rw [unescapeDecode.eq_def]
  dsimp only
  rw [if_neg (by decide), if_pos rfl, if_neg hn, if_neg hr, if_neg ht, if_neg hx, if_pos h, hn']
  exact if_neg (by omega)

/-- A character that is escaped with one letter: both loops go over it. -/
theorem unescape_letter {e c : UInt8} (h : (e = byte 'n' ∧ c = byte '\n')
      ∨ (e = byte 't' ∧ c = byte '\t') ∨ (e = byte 'r' ∧ c = byte '\r')
      ∨ (e = byte '\\' ∧ c = byte '\\') ∨ (e = byte '"' ∧ c = byte '"')
      ∨ (e = byte '\'' ∧ c = byte '\'')) (cp : Bytes) :
    unescapeEnds (byte '\\' :: e :: cp) = unescapeEnds cp
      ∧ unescapeDecode (byte '\\' :: e :: cp)
        = (unescapeDecode cp).map fun r => (c :: r.1, r.2) := by
  rw [unescapeEnds.eq_def, unescapeDecode.eq_def]
  rcases h with ⟨rfl, rfl⟩ | ⟨rfl, rfl⟩ | ⟨rfl, rfl⟩ | ⟨rfl, rfl⟩ | ⟨rfl, rfl⟩ | ⟨rfl, rfl⟩
  all_goals exact ⟨rfl, rfl⟩

/-- **One character**: both loops go over what it was escaped to, and the second one gives it back. -/
theorem unescape_escChar (c : UInt8) (cp : Bytes) :
    unescapeEnds (escChar c ++ cp) = unescapeEnds cp
      ∧ unescapeDecode (escChar c ++ cp)
        = (unescapeDecode cp).map fun r => (c :: r.1, r.2) := by
  have hlt := UInt8.toNat_lt c
  unfold escChar
  split
  · next h =>
    exact unescape_letter (by tauto) cp
  · next h =>
    split
    · next hn => exact unescape_letter (.inl ⟨rfl, hn⟩) cp
    · next hn =>
      split
      · next ht => exact unescape_letter (.inr (.inl ⟨rfl, ht⟩)) cp
      · split
        · next hr => exact unescape_letter (.inr (.inr (.inl ⟨rfl, hr⟩))) cp
        · split
          · exact ⟨unescapeEnds_plain (by tauto) cp, unescapeDecode_plain (by tauto) cp⟩
          · -- three octal digits, of which the first is at most 3
            have hfirst := octalDigit_facts (show c.toNat / 64 < 8 by omega)
            obtain ⟨hx, hX, hn', hr', ht'⟩ := octalDigit_ne (show c.toNat / 64 < 8 by omega)
            have hdigits : ∀ n, moreOctal n
                (octalDigit (c.toNat / 8 % 8) :: octalDigit (c.toNat % 8) :: cp)
                  = ((n * 8 + c.toNat / 8 % 8) * 8 + c.toNat % 8, cp) :=
              fun n => moreOctal_digits (by omega) (by omega) cp
            constructor
            · change unescapeEnds (byte '\\' :: octalDigit (c.toNat / 64)
                :: octalDigit (c.toNat / 8 % 8) :: octalDigit (c.toNat % 8) :: cp) = _
              rw [unescapeEnds_octal hfirst.1 (by tauto), hdigits]
            · change unescapeDecode (byte '\\' :: octalDigit (c.toNat / 64)
                :: octalDigit (c.toNat / 8 % 8) :: octalDigit (c.toNat % 8) :: cp) = _
              have hvalue : (c.toNat / 64 * 8 + c.toNat / 8 % 8) * 8 + c.toNat % 8 = c.toNat := by
                omega
              rw [unescapeDecode_octal hfirst.1 hn' hr' ht' (by tauto)
                (by rw [hfirst.2, hdigits, hvalue]) (by omega), UInt8.ofNat_toNat]

theorem unescapeEnds_escaped (s rest : Bytes) :
    unescapeEnds (s.flatMap escChar ++ byte '"' :: rest) = true := by
  induction s with
  | nil => exact unescapeEnds_quote rest
  | cons c s ih => rw [List.flatMap_cons, List.append_assoc, (unescape_escChar c _).1, ih]

theorem unescapeDecode_escaped (s rest : Bytes) :
    unescapeDecode (s.flatMap escChar ++ byte '"' :: rest) = some (s, rest) := by
  induction s with
  | nil => exact unescapeDecode_quote rest
  | cons c s ih =>
    rw [List.flatMap_cons, List.append_assoc, (unescape_escChar c _).2, ih]
    rfl

/-- **What was escaped is read back**, whatever is behind it. -/
theorem unescapeString_escForLog (s rest : Bytes) :
    unescapeString (escForLog s ++ rest) = some (s, rest) := by
  have htext : escForLog s ++ rest = byte '"' :: (s.flatMap escChar ++ byte '"' :: rest) := by
    rw [escForLog, List.cons_append, List.cons_append, List.append_assoc, List.singleton_append]
  rw [htext, unescapeString, if_pos ⟨rfl, unescapeEnds_escaped s rest⟩, unescapeDecode_escaped]

/-- What is escaped has no NUL. -/
theorem zero_notMem_escForLog (s : Bytes) : 0 ∉ escForLog s := by
  have hdigit : ∀ {n : ℕ}, n < 8 → 0 ≠ octalDigit n := by
    intro n hn hzero
    have := (octalDigit_facts hn).1
    rw [← hzero] at this
    exact absurd this (by decide)
  have hchar : ∀ c, 0 ∉ escChar c := by
    intro c
    have hlt := UInt8.toNat_lt c
    unfold escChar
    split
    · next h => rcases h with rfl | rfl | rfl <;> decide
    · split
      · decide
      · split
        · decide
        · split
          · decide
          · split
            · next hprint =>
              intro hzero
              obtain rfl := List.mem_singleton.mp hzero
              exact absurd hprint.1 (by decide)
            · simp only [List.mem_cons, List.not_mem_nil, or_false, not_or]
              exact ⟨by decide, hdigit (by omega), hdigit (by omega), hdigit (by omega)⟩
  unfold escForLog
  simp only [List.mem_append, List.mem_cons, List.mem_flatMap, not_or, not_exists, not_and]
  exact ⟨⟨by decide, fun c _ => hchar c⟩, by decide⟩

/-- What is behind the string is shorter. -/
theorem length_unescapeDecode : ∀ (n : ℕ) {cp val rest : Bytes}, cp.length ≤ n →
    unescapeDecode cp = some (val, rest) → rest.length < cp.length := by
  intro n
  induction n with
  | zero =>
    intro cp val rest hn h
    rw [List.length_eq_zero_iff.mp (Nat.le_zero.mp hn), unescapeDecode] at h
    exact nomatch h
  | succ n ih =>
    intro cp val rest hn h
    -- each character is followed by a shorter string that is decoded
    have hmap : ∀ {cp' : Bytes} {b : UInt8}, cp'.length < cp.length →
        (unescapeDecode cp').map (fun r => (b :: r.1, r.2)) = some (val, rest) →
        rest.length < cp.length := by
      intro cp' b hlt hmap
      obtain ⟨⟨val', rest'⟩, hr, heq⟩ := Option.map_eq_some_iff.mp hmap
      rw [Prod.mk.injEq] at heq
      have := ih (by omega) hr
      rw [← heq.2]
      dsimp only
      omega
    unfold unescapeDecode at h
    split at h
    · exact nomatch h
    · next c cp =>
      split at h
      · rw [Option.some.injEq, Prod.mk.injEq] at h
        rw [← h.2]
        exact Nat.lt_succ_self _
      · split at h
        · split at h
          · exact nomatch h
          · next e cp =>
            have hlt : cp.length < (c :: e :: cp).length := by simp
            split at h
            · exact hmap hlt h
            · split at h
              · exact hmap hlt h
              · split at h
                · exact hmap hlt h
                · split at h
                  · split at h
                    · split at h
                      · refine hmap ?_ h
                        simp only [List.length_cons]
                        omega
                      · exact nomatch h
                    · exact nomatch h
                  · split at h
                    · split at h
                      · exact nomatch h
                      · have := length_moreOctal (e.toNat - 48) cp
                        exact hmap (by omega) h
                    · split at h
                      · exact hmap hlt h
                      · exact nomatch h
        · exact hmap (Nat.lt_succ_self _) h

theorem length_unescapeString {s val rest : Bytes} (h : unescapeString s = some (val, rest)) :
    rest.length < s.length := by
  unfold unescapeString at h
  split at h
  · exact nomatch h
  · next c cp =>
    split at h
    · have := length_unescapeDecode cp.length le_rfl h
      rw [List.length_cons]
      omega
    · exact nomatch h

end Dittor.Tor

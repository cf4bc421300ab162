import Dittor.Tor.Tokenizer

/-!
# Base64 and base16 (`binascii.c`)

`base64_encode` with `BASE64_ENCODE_MULTILINE`: four characters for three bytes, a newline
behind every 64 characters and behind the last line. `base64_decode` skips the newlines and
gives the bytes back (`base64Decode_encode`), and so does `base16_decode`
(`base16Decode_encode`).
-/

namespace Dittor.Tor

open Dittor.Lib

/-- `base64_encode_table` -/
def base64Char (n : ℕ) : UInt8 :=
  if n < 26 then UInt8.ofNat (65 + n)
  else if n < 52 then UInt8.ofNat (71 + n)
  else if n < 62 then UInt8.ofNat (n - 4)
  else if n = 62 then byte '+'
  else byte '/'

/-- The characters, without newlines. -/
def base64Chars : Bytes → Bytes
  | [] => []
  | [a] =>
    let n := a.toNat * 16
    [base64Char (n / 64 % 64), base64Char (n % 64), byte '=', byte '=']
  | [a, b] =>
    let n := (a.toNat * 256 + b.toNat) * 4
    [base64Char (n / 4096 % 64), base64Char (n / 64 % 64), base64Char (n % 64), byte '=']
  | a :: b :: c :: src =>
    let n := (a.toNat * 256 + b.toNat) * 256 + c.toNat
    base64Char (n / 262144 % 64) :: base64Char (n / 4096 % 64) :: base64Char (n / 64 % 64)
      :: base64Char (n % 64) :: base64Chars src

/-- `ENCODE_CHAR` for each character, with `linelen` of them on the line so far. -/
def encodeLines (linelen : ℕ) : Bytes → Bytes
  | [] => if linelen ≠ 0 then [byte '\n'] else []
  | ch :: chs =>
    if (linelen + 1) % 64 = 0 then ch :: byte '\n' :: encodeLines 0 chs
    else ch :: encodeLines (linelen + 1) chs

/-- `base64_encode` -/
def base64Encode (src : Bytes) : Bytes := encodeLines 0 (base64Chars src)

/-! ## Decoding -/

/-- What the decoder sees of a character. -/
theorem base64Char_facts {n : ℕ} (h : n < 64) :
    base64Value (base64Char n) = some n ∧ base64Char n ≠ byte '=' ∧ base64Char n ≠ byte '-'
      ∧ base64Char n ≠ byte '\n' ∧ base64Char n ≠ 0
      ∧ (base64Char n = byte ' ' || base64Char n = byte '\t' || base64Char n = byte '\n'
        || base64Char n = 11 || base64Char n = byte '\r') = false := by
  have hall : ∀ n : Fin 64,
      base64Value (base64Char n) = some n.val ∧ base64Char n ≠ byte '='
        ∧ base64Char n ≠ byte '-' ∧ base64Char n ≠ byte '\n' ∧ base64Char n ≠ 0
        ∧ (base64Char n = byte ' ' || base64Char n = byte '\t' || base64Char n = byte '\n'
          || base64Char n = 11 || base64Char n = byte '\r') = false := by decide
  exact hall ⟨n, h⟩

/-- A character that does not fill a group. -/
theorem base64Loop_char {n count v : ℕ} (hv : v < 64) (hcount : count ≠ 3) (bs : Bytes) :
    base64Loop n count (base64Char v :: bs) = base64Loop (n * 64 + v) (count + 1) bs := by
  obtain ⟨hvalue, hpad, -, -, -, hblank⟩ := base64Char_facts hv
  rw [base64Loop, if_neg hpad, if_neg (by rw [hblank]; decide), hvalue]
  exact if_neg hcount

/-- The fourth character of a group. -/
theorem base64Loop_fourth {n v : ℕ} (hv : v < 64) (bs : Bytes) :
    base64Loop n 3 (base64Char v :: bs) = (base64Loop 0 0 bs).map fun out =>
      UInt8.ofNat ((n * 64 + v) / 65536) :: UInt8.ofNat ((n * 64 + v) / 256)
        :: UInt8.ofNat (n * 64 + v) :: out := by
  obtain ⟨hvalue, hpad, -, -, -, hblank⟩ := base64Char_facts hv
  rw [base64Loop, if_neg hpad, if_neg (by rw [hblank]; decide), hvalue]
  exact if_pos rfl

theorem base64Loop_pad (n count : ℕ) (bs : Bytes) :
    base64Loop n count (byte '=' :: bs) = base64Rest n count := by
  rw [base64Loop, if_pos rfl]

theorem base64Loop_newline (n count : ℕ) (bs : Bytes) :
    base64Loop n count (byte '\n' :: bs) = base64Loop n count bs := by
  rw [base64Loop, if_neg (by decide), if_pos (by decide)]

theorem ofNat_eq {b : UInt8} {n : ℕ} (h : n % 256 = b.toNat) : UInt8.ofNat n = b := by
  rw [← UInt8.toNat_inj, UInt8.toNat_ofNat', h]

theorem base64Loop_chars : ∀ src : Bytes, base64Loop 0 0 (base64Chars src) = some src
  | [] => rfl
  | [a] => by
    have ha := UInt8.toNat_lt a
    simp only [base64Chars]
    rw [base64Loop_char (by omega) (by decide), base64Loop_char (by omega) (by decide),
      base64Loop_pad, base64Rest, ofNat_eq (b := a) (by omega)]
  | [a, b] => by
    have ha := UInt8.toNat_lt a
    have hb := UInt8.toNat_lt b
    simp only [base64Chars]
    rw [base64Loop_char (by omega) (by decide), base64Loop_char (by omega) (by decide),
      base64Loop_char (by omega) (by decide), base64Loop_pad, base64Rest,
      ofNat_eq (b := a) (by omega), ofNat_eq (b := b) (by omega)]
  | a :: b :: c :: src => by
    have ha := UInt8.toNat_lt a
    have hb := UInt8.toNat_lt b
    have hc := UInt8.toNat_lt c
    simp only [base64Chars]
    rw [base64Loop_char (by omega) (by decide), base64Loop_char (by omega) (by decide),
      base64Loop_char (by omega) (by decide), base64Loop_fourth (by omega),
      base64Loop_chars src, Option.map_some, ofNat_eq (b := a) (by omega),
      ofNat_eq (b := b) (by omega), ofNat_eq (b := c) (by omega)]

/-- What `base64_encode_nopad` keeps. -/
def isUnpadded (b : UInt8) : Bool := b ≠ byte '=' && b ≠ byte '\n'

/-- `base64_encode_nopad` -/
def base64EncodeNopad (src : Bytes) : Bytes := (base64Chars src).filter isUnpadded

theorem base64Char_keep {n : ℕ} (h : n < 64) : isUnpadded (base64Char n) = true := by
  obtain ⟨-, hpad, -, hnewline, -⟩ := base64Char_facts h
  rw [isUnpadded, Bool.and_eq_true]
  exact ⟨decide_eq_true hpad, decide_eq_true hnewline⟩

theorem base64EncodeNopad_one (a : UInt8) :
    base64EncodeNopad [a] =
      [base64Char (a.toNat * 16 / 64 % 64), base64Char (a.toNat * 16 % 64)] := by
  rw [base64EncodeNopad, base64Chars, List.filter_cons_of_pos (base64Char_keep (by omega)),
    List.filter_cons_of_pos (base64Char_keep (by omega))]
  rfl

theorem base64EncodeNopad_two (a b : UInt8) :
    base64EncodeNopad [a, b] =
      [base64Char ((a.toNat * 256 + b.toNat) * 4 / 4096 % 64),
        base64Char ((a.toNat * 256 + b.toNat) * 4 / 64 % 64),
        base64Char ((a.toNat * 256 + b.toNat) * 4 % 64)] := by
  rw [base64EncodeNopad, base64Chars, List.filter_cons_of_pos (base64Char_keep (by omega)),
    List.filter_cons_of_pos (base64Char_keep (by omega)),
    List.filter_cons_of_pos (base64Char_keep (by omega))]
  rfl

theorem base64EncodeNopad_group (a b c : UInt8) (src : Bytes) :
    ∃ group : Bytes, group.length = 4
      ∧ base64Chars (a :: b :: c :: src) = group ++ base64Chars src
      ∧ base64EncodeNopad (a :: b :: c :: src) = group ++ base64EncodeNopad src := by
  refine ⟨(base64Chars (a :: b :: c :: src)).take 4, rfl, rfl, ?_⟩
  rw [base64EncodeNopad, base64Chars, List.filter_cons_of_pos (base64Char_keep (by omega)),
    List.filter_cons_of_pos (base64Char_keep (by omega)),
    List.filter_cons_of_pos (base64Char_keep (by omega)),
    List.filter_cons_of_pos (base64Char_keep (by omega))]
  rfl

theorem base64Chars_nopad : ∀ src : Bytes,
    ∃ k, base64Chars src = base64EncodeNopad src ++ List.replicate k (byte '=')
  | [] => ⟨0, rfl⟩
  | [a] => ⟨2, by rw [base64EncodeNopad_one]; rfl⟩
  | [a, b] => ⟨1, by rw [base64EncodeNopad_two]; rfl⟩
  | a :: b :: c :: src => by
    obtain ⟨k, hk⟩ := base64Chars_nopad src
    obtain ⟨group, -, hchars, hnopad⟩ := base64EncodeNopad_group a b c src
    refine ⟨k, ?_⟩
    rw [hchars, hnopad, hk, List.append_assoc]

/-- The decoder does without padding. -/
theorem base64Loop_append_pad (k : ℕ) : ∀ (l : Bytes) (n count : ℕ),
    base64Loop n count (l ++ List.replicate k (byte '=')) = base64Loop n count l
  | [], n, count => by
    cases k with
    | zero => rfl
    | succ k =>
      rw [List.nil_append, List.replicate_succ, base64Loop_pad]
      rfl
  | b :: l, n, count => by
    rw [List.cons_append, base64Loop, base64Loop, base64Loop_append_pad k l n count,
      base64Loop_append_pad k l 0 0]
    cases base64Value b with
    | none => rfl
    | some v => simp only [base64Loop_append_pad k l (n * 64 + v) (count + 1)]

theorem base64Decode_nopad (src : Bytes) : base64Decode (base64EncodeNopad src) = some src := by
  obtain ⟨k, hk⟩ := base64Chars_nopad src
  rw [base64Decode, ← base64Loop_append_pad k, ← hk, base64Loop_chars]

/-- Newlines are skipped wherever they stand. -/
theorem base64Loop_encodeLines : ∀ (chs : Bytes) (linelen n count : ℕ),
    base64Loop n count (encodeLines linelen chs) = base64Loop n count chs := by
  intro chs
  induction chs with
  | nil =>
    intro linelen n count
    rw [encodeLines]
    split
    · exact base64Loop_newline n count []
    · rfl
  | cons ch chs ih =>
    intro linelen n count
    -- the loop does the same with the character, and what follows differs by newlines
    have hcons : ∀ rest, (∀ n count, base64Loop n count rest = base64Loop n count chs) →
        base64Loop n count (ch :: rest) = base64Loop n count (ch :: chs) := by
      intro rest hrest
      rw [base64Loop, base64Loop]
      simp only [hrest]
    rw [encodeLines]
    split
    · exact hcons _ fun n count => by rw [base64Loop_newline, ih]
    · exact hcons _ fun n count => ih _ n count

theorem base64Decode_encode (src : Bytes) : base64Decode (base64Encode src) = some src := by
  rw [base64Decode, base64Encode, base64Loop_encodeLines, base64Loop_chars]

/-! ## The text -/

theorem mem_base64Chars : ∀ {src : Bytes} {b : UInt8}, b ∈ base64Chars src →
    b = byte '=' ∨ ∃ n < 64, b = base64Char n
  | [a], b, h => by
    simp only [base64Chars, List.mem_cons, List.not_mem_nil, or_false] at h
    rcases h with rfl | rfl | rfl | rfl
    · exact .inr ⟨_, Nat.mod_lt _ (by decide), rfl⟩
    · exact .inr ⟨_, Nat.mod_lt _ (by decide), rfl⟩
    · exact .inl rfl
    · exact .inl rfl
  | [a, a'], b, h => by
    simp only [base64Chars, List.mem_cons, List.not_mem_nil, or_false] at h
    rcases h with rfl | rfl | rfl | rfl
    · exact .inr ⟨_, Nat.mod_lt _ (by decide), rfl⟩
    · exact .inr ⟨_, Nat.mod_lt _ (by decide), rfl⟩
    · exact .inr ⟨_, Nat.mod_lt _ (by decide), rfl⟩
    · exact .inl rfl
  | a :: a' :: a'' :: src, b, h => by
    simp only [base64Chars, List.mem_cons] at h
    rcases h with rfl | rfl | rfl | rfl | h
    · exact .inr ⟨_, Nat.mod_lt _ (by decide), rfl⟩
    · exact .inr ⟨_, Nat.mod_lt _ (by decide), rfl⟩
    · exact .inr ⟨_, Nat.mod_lt _ (by decide), rfl⟩
    · exact .inr ⟨_, Nat.mod_lt _ (by decide), rfl⟩
    · exact mem_base64Chars h

theorem mem_encodeLines {b : UInt8} : ∀ {chs : Bytes} {linelen : ℕ}, b ∈ encodeLines linelen chs →
    b = byte '\n' ∨ b ∈ chs := by
  intro chs
  induction chs with
  | nil =>
    intro linelen h
    rw [encodeLines] at h
    split at h
    · exact .inl (List.mem_singleton.mp h)
    · cases h
  | cons ch chs ih =>
    intro linelen h
    rw [encodeLines] at h
    split at h
    · rcases List.mem_cons.mp h with rfl | h
      · exact .inr List.mem_cons_self
      · rcases List.mem_cons.mp h with rfl | h
        · exact .inl rfl
        · exact (ih h).imp_right (List.mem_cons_of_mem _)
    · rcases List.mem_cons.mp h with rfl | h
      · exact .inr List.mem_cons_self
      · exact (ih h).imp_right (List.mem_cons_of_mem _)

/-- No dash, which begins the line behind the object, and no NUL. -/
theorem mem_base64Encode {src : Bytes} {b : UInt8} (h : b ∈ base64Encode src) :
    b ≠ byte '-' ∧ b ≠ byte ' ' ∧ b ≠ 0 := by
  rcases mem_encodeLines h with rfl | h
  · decide
  · rcases mem_base64Chars h with rfl | ⟨n, hn, rfl⟩
    · decide
    · obtain ⟨-, -, hdash, -, hzero, hblank⟩ := base64Char_facts hn
      refine ⟨hdash, ?_, hzero⟩
      intro heq
      rw [heq] at hblank
      exact absurd hblank (by decide)

theorem length_base64EncodeNopad : ∀ src : Bytes,
    (base64EncodeNopad src).length = (4 * src.length + 2) / 3
  | [] => rfl
  | [a] => by
    rw [base64EncodeNopad_one]
    simp only [List.length_cons, List.length_nil]
  | [a, b] => by
    rw [base64EncodeNopad_two]
    simp only [List.length_cons, List.length_nil]
  | a :: b :: c :: src => by
    have ih := length_base64EncodeNopad src
    obtain ⟨group, hlen, -, hnopad⟩ := base64EncodeNopad_group a b c src
    rw [hnopad, List.length_append, hlen, ih]
    simp only [List.length_cons]
    omega

theorem isBase64_encodeNopad {src : Bytes} {b : UInt8} (h : b ∈ base64EncodeNopad src) :
    isBase64 b = true := by
  have hall : ∀ n : Fin 64, isBase64 (base64Char n) = true := by decide
  obtain ⟨hmem, hb⟩ := List.mem_filter.mp h
  rcases mem_base64Chars hmem with rfl | ⟨n, hn, rfl⟩
  · exact absurd hb (by decide)
  · exact hall ⟨n, hn⟩

/-- The characters of a text without padding. -/
theorem mem_base64EncodeNopad {src : Bytes} {b : UInt8} (h : b ∈ base64EncodeNopad src) :
    b ≠ byte '\n' ∧ b ≠ byte '@' ∧ b ≠ byte '#' := by
  have hall : ∀ n : Fin 64, base64Char n ≠ byte '\n' ∧ base64Char n ≠ byte '@'
      ∧ base64Char n ≠ byte '#' := by
    decide
  obtain ⟨hmem, hb⟩ := List.mem_filter.mp h
  rcases mem_base64Chars hmem with rfl | ⟨n, hn, rfl⟩
  · exact absurd hb (by decide)
  · exact hall ⟨n, hn⟩

theorem length_base64Chars : ∀ src : Bytes, (base64Chars src).length ≤ 4 * src.length
  | [] => by simp [base64Chars]
  | [a] => by simp [base64Chars]
  | [a, b] => by simp [base64Chars]
  | a :: b :: c :: src => by
    have ih := length_base64Chars src
    simp only [base64Chars, List.length_cons]
    omega

theorem length_encodeLines : ∀ (chs : Bytes) (linelen : ℕ),
    (encodeLines linelen chs).length ≤ 2 * chs.length + 1 := by
  intro chs
  induction chs with
  | nil =>
    intro linelen
    rw [encodeLines]
    split <;> simp
  | cons ch chs ih =>
    intro linelen
    rw [encodeLines]
    split
    · have := ih 0
      simp only [List.length_cons]
      omega
    · have := ih (linelen + 1)
      simp only [List.length_cons]
      omega

/-- Far less than the tokenizer takes. -/
theorem length_base64Encode (src : Bytes) : (base64Encode src).length ≤ 8 * src.length + 1 := by
  have hchars := length_base64Chars src
  have hlines := length_encodeLines (base64Chars src) 0
  rw [base64Encode]
  omega

/-! ## Base16 -/

/-- `hex_decode_digit` -/
def hexDecodeDigit (b : UInt8) : Option ℕ :=
  if byte '0' ≤ b && b ≤ byte '9' then some (b.toNat - 48)
  else if byte 'A' ≤ b && b ≤ byte 'F' then some (b.toNat - 55)
  else if byte 'a' ≤ b && b ≤ byte 'f' then some (b.toNat - 87)
  else none

/-- `base16_decode` -/
def base16Decode : Bytes → Option Bytes
  | [] => some []
  | [_] => none
  | a :: b :: src =>
    match hexDecodeDigit a, hexDecodeDigit b with
    | some v1, some v2 => (base16Decode src).map fun dest => UInt8.ofNat (v1 * 16 + v2) :: dest
    | _, _ => none

theorem base16Decode_length : ∀ {hex d : Bytes}, base16Decode hex = some d →
    hex.length = 2 * d.length
  | [], d, h => by
    cases h
    rfl
  | [_], d, h => by cases h
  | a :: b :: src, d, h => by
    rw [base16Decode] at h
    split at h
    · obtain ⟨dest, hdest, rfl⟩ := Option.map_eq_some_iff.mp h
      have ih := base16Decode_length hdest
      simp only [List.length_cons]
      omega
    · cases h

theorem hexDecodeDigit_base16Digit {n : ℕ} (h : n < 16) :
    hexDecodeDigit (base16Digit n) = some n := by
  have hall : ∀ n : Fin 16, hexDecodeDigit (base16Digit n) = some n.val := by decide
  exact hall ⟨n, h⟩

theorem base16Decode_encode : ∀ src : Bytes, base16Decode (base16Encode src) = some src
  | [] => rfl
  | b :: src => by
    have hlt := UInt8.toNat_lt b
    have htext : base16Encode (b :: src) =
        base16Digit (b.toNat / 16) :: base16Digit (b.toNat % 16) :: base16Encode src := rfl
    rw [htext, base16Decode, hexDecodeDigit_base16Digit (by omega),
      hexDecodeDigit_base16Digit (by omega)]
    simp only [base16Decode_encode src, Option.map_some]
    rw [show b.toNat / 16 * 16 + b.toNat % 16 = b.toNat by omega, UInt8.ofNat_toNat]

end Dittor.Tor

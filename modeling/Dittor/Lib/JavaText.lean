import Mathlib.Data.List.DropRight

/-!
# Text as Java's library reads it

What a line-based Java server does to the bytes of a socket before its own code
runs: UTF-8 decoding with replacement, `readLine`, `trim`, `split`. Strings are
lists of characters.

The decoder is the state machine of the Unicode recommendation Java follows: a
byte that cannot continue the pending sequence replaces it by U+FFFD and is
looked at again. In one thing Java goes its own way: a surrogate in three bytes is
read to its end and replaced as a whole (`utf8Char`). The pending state carries what makes it well formed, so a
completed sequence never decodes to an ASCII character
(`byte_of_mem_decode`), and an ASCII byte always ends what came before it
(`decodeFrom_append_ascii`).
Together they say that a text protocol with ASCII delimiters is framed on the
characters exactly as it was on the bytes. Text that was encoded is decoded as it
was (`decodeUtf8_encode`): the encoder has no surrogates and no overlong forms.
-/

namespace Dittor.Lib

/-- A condition on the characters of a text is decided on these, one after the other, and
not on all the characters there are. -/
instance decidableForallMem (p : Char → Prop) [DecidablePred p] (t : List Char) :
    Decidable (∀ c ∈ t, p c) :=
  List.decidableBAll p t

instance decidableForallMemOption (p : Char → Prop) [DecidablePred p] (o : Option Char) :
    Decidable (∀ c ∈ o, p c) :=
  Option.decidableForallMem o

/-! ## UTF-8 -/

/-- U+FFFD -/
def replacementChar : Char := Char.ofNat 0xFFFD

/-- A started multi-byte sequence: the bits so far, the number of bytes still to
come and the range of the next one. -/
structure Utf8Pending where
  codePoint : ℕ
  needed : ℕ
  lower : ℕ
  upper : ℕ
  lower_ge : 128 ≤ lower
  /-- No overlong forms: enough bits are set, or the next byte will set them. -/
  large : 2 ≤ codePoint ∨ (1 < needed ∧ (1 ≤ codePoint ∨ 130 ≤ lower))

/-- A byte at the start of a character. -/
def startByte (b : ℕ) : List Char × Option Utf8Pending :=
  if b < 0x80 then ([Char.ofNat b], none)
  else if h : 0xC2 ≤ b ∧ b ≤ 0xDF then
    ([], some ⟨b - 0xC0, 1, 0x80, 0xBF, by omega, by omega⟩)
  else if b = 0xE0 then ([], some ⟨0, 2, 0xA0, 0xBF, by omega, by omega⟩)
  else if h : 0xE1 ≤ b ∧ b ≤ 0xEF then
    ([], some ⟨b - 0xE0, 2, 0x80, 0xBF, by omega, by omega⟩)
  else if b = 0xF0 then ([], some ⟨0, 3, 0x90, 0xBF, by omega, by omega⟩)
  else if h : 0xF1 ≤ b ∧ b ≤ 0xF4 then
    ([], some ⟨b - 0xF0, 3, 0x80, if b = 0xF4 then 0x8F else 0xBF, by omega, by omega⟩)
  else ([replacementChar], none)

/-- The character of a completed sequence; a surrogate is none. -/
def utf8Char (n : ℕ) : Char := if n.isValidChar then Char.ofNat n else replacementChar

/-- One byte of the decoder: the characters it completes and what is pending. -/
def feedByte : Option Utf8Pending → ℕ → List Char × Option Utf8Pending
  | none, b => startByte b
  | some st, b =>
    if h : st.lower ≤ b ∧ b ≤ st.upper then
      if hn : st.needed ≤ 1 then ([utf8Char (st.codePoint * 64 + (b - 0x80))], none)
      else ([], some ⟨st.codePoint * 64 + (b - 0x80), st.needed - 1, 0x80, 0xBF, by omega, by
        have h1 := st.large
        have h2 := st.lower_ge
        omega⟩)
    else
      -- the sequence breaks off here and `b` starts anew
      (replacementChar :: (startByte b).1, (startByte b).2)

/-- The rest of a byte stream, to its end. -/
def decodeFrom : Option Utf8Pending → List UInt8 → List Char
  | none, [] => []
  | some _, [] => [replacementChar]
  | st, b :: bs => (feedByte st b.toNat).1 ++ decodeFrom (feedByte st b.toNat).2 bs

/-- `new InputStreamReader(in, StandardCharsets.UTF_8)` -/
def decodeUtf8 (bytes : List UInt8) : List Char := decodeFrom none bytes

/-- A surrogate, whole and cut off. -/
example : decodeUtf8 [0xED, 0xA0, 0x80, 0x41, 0xED, 0xA0, 0x41]
    = [replacementChar, 'A', replacementChar, 'A'] := by decide

/-- An ASCII byte ends whatever is pending and stands for itself. -/
theorem feedByte_ascii (st : Option Utf8Pending) {b : ℕ} (hb : b < 128) :
    feedByte st b = (decodeFrom st [] ++ [Char.ofNat b], none) := by
  have hstart : startByte b = ([Char.ofNat b], none) := if_pos hb
  cases st with
  | none => exact hstart
  | some st =>
    have hlow := st.lower_ge
    have hout : ¬ (st.lower ≤ b ∧ b ≤ st.upper) := by omega
    rw [feedByte, dif_neg hout, hstart]
    rfl

/-- **Framing.** An ASCII byte splits the decoding into two independent ones. -/
theorem decodeFrom_append_ascii {b : UInt8} (hb : b.toNat < 128) (ys : List UInt8) :
    ∀ (xs : List UInt8) (st : Option Utf8Pending),
      decodeFrom st (xs ++ b :: ys) = decodeFrom st xs ++ Char.ofNat b.toNat :: decodeUtf8 ys := by
  intro xs
  induction xs with
  | nil =>
    intro st
    rw [List.nil_append, decodeFrom, feedByte_ascii st hb, List.append_assoc]
    rfl
  | cons x xs ih =>
    intro st
    rw [List.cons_append, decodeFrom, ih, decodeFrom, List.append_assoc]

theorem decodeUtf8_append_ascii {b : UInt8} (hb : b.toNat < 128) (xs ys : List UInt8) :
    decodeUtf8 (xs ++ b :: ys) = decodeUtf8 xs ++ Char.ofNat b.toNat :: decodeUtf8 ys :=
  decodeFrom_append_ascii hb ys xs none

/-- ASCII text in front is read byte by byte. -/
theorem decodeUtf8_ascii_append {xs : List UInt8} (h : ∀ b ∈ xs, b.toNat < 128) (ys : List UInt8) :
    decodeUtf8 (xs ++ ys) = (xs.map fun b => Char.ofNat b.toNat) ++ decodeUtf8 ys := by
  induction xs with
  | nil => rfl
  | cons b xs ih =>
    have hb := h b List.mem_cons_self
    rw [List.cons_append, ← List.nil_append (b :: (xs ++ ys)), decodeUtf8_append_ascii hb,
      ih fun c hc => h c (List.mem_cons_of_mem b hc)]
    rfl

/-- Fields joined by an ASCII byte are decoded one by one. -/
theorem decodeUtf8_intercalate {sep : UInt8} (hsep : sep.toNat < 128) (fields : List (List UInt8)) :
    decodeUtf8 ([sep].intercalate fields)
      = [Char.ofNat sep.toNat].intercalate (fields.map decodeUtf8) := by
  induction fields with
  | nil => rfl
  | cons f fs ih =>
    cases fs with
    | nil => simp
    | cons f' fs =>
      rw [List.intercalate_cons_cons, List.append_assoc, List.singleton_append,
        decodeUtf8_append_ascii hsep, ih]
      simp only [List.map_cons, List.intercalate_cons_cons, List.append_assoc,
        List.singleton_append]

theorem toNat_ofNat_valid {n : ℕ} (h : n.isValidChar) : (Char.ofNat n).toNat = n := by
  unfold Char.ofNat
  rw [dif_pos h]
  show (UInt32.ofNatLT n _).toNat = n
  exact UInt32.toNat_ofNatLT

section Ascii

variable {c : Char} (hc : c.toNat < 128)

include hc in
theorem ne_replacementChar : c ≠ replacementChar := by
  rintro rfl
  exact absurd hc (by decide)

include hc in
/-- A sequence of several bytes is never an ASCII character. -/
theorem utf8Char_ne_ascii {n : ℕ} (hn : 128 ≤ n) : utf8Char n ≠ c := by
  unfold utf8Char
  split
  next hv =>
    rintro rfl
    rw [toNat_ofNat_valid hv] at hc
    omega
  next => exact (ne_replacementChar hc).symm

include hc in
theorem mem_startByte {b : ℕ} (h : c ∈ (startByte b).1) : b = c.toNat := by
  have hrep := ne_replacementChar hc
  unfold startByte at h
  split at h
  next hb =>
    rw [List.mem_singleton.mp h, toNat_ofNat_valid (.inl (by omega))]
  next =>
    -- every other first byte completes nothing or a replacement
    repeat' split at h
    all_goals simp_all

include hc in
theorem mem_feedByte {st : Option Utf8Pending} {b : ℕ} (h : c ∈ (feedByte st b).1) :
    b = c.toNat := by
  cases st with
  | none => exact mem_startByte hc h
  | some st =>
    rw [feedByte] at h
    split at h
    next hr =>
      split at h
      next hn =>
        have hlarge := st.large
        have hlow := st.lower_ge
        exact absurd (List.mem_singleton.mp h).symm (utf8Char_ne_ascii hc (by omega))
      next => exact absurd h List.not_mem_nil
    next =>
      rcases List.mem_cons.mp h with hrep | hstart
      · exact absurd hrep (ne_replacementChar hc)
      · exact mem_startByte hc hstart

include hc in
/-- **No ASCII character comes from nowhere**: it is one of the bytes. -/
theorem byte_of_mem_decode :
    ∀ (bs : List UInt8) (st : Option Utf8Pending), c ∈ decodeFrom st bs →
      ∃ b ∈ bs, b.toNat = c.toNat := by
  intro bs
  induction bs with
  | nil =>
    intro st h
    cases st with
    | none => exact absurd h List.not_mem_nil
    | some st => exact absurd (List.mem_singleton.mp h) (ne_replacementChar hc)
  | cons b bs ih =>
    intro st h
    rw [decodeFrom] at h
    rcases List.mem_append.mp h with h | h
    · exact ⟨b, List.mem_cons_self, mem_feedByte hc h⟩
    · obtain ⟨b', hb', hval⟩ := ih _ h
      exact ⟨b', List.mem_cons_of_mem b hb', hval⟩

end Ascii

/-! ## What was encoded is read back -/

section RoundTrip

/-- A continuation byte, and the six bits it carries. -/
theorem toNat_tailByte {n : ℕ} (h : n < 64) : (UInt8.ofNat (n + 0x80)).toNat = n + 0x80 := by
  rw [UInt8.toNat_ofNat']
  omega

/-- The last byte of a sequence completes its character. -/
theorem decodeFrom_last {st : Utf8Pending} {n : ℕ} (hneeded : st.needed ≤ 1) (h : n < 64)
    (hlow : st.lower ≤ n + 0x80) (hup : n + 0x80 ≤ st.upper) (rest : List UInt8) :
    decodeFrom (some st) (UInt8.ofNat (n + 0x80) :: rest)
      = utf8Char (st.codePoint * 64 + n) :: decodeUtf8 rest := by
  rw [decodeFrom, toNat_tailByte h, feedByte, dif_pos ⟨hlow, hup⟩, dif_pos hneeded,
    Nat.add_sub_cancel]
  rfl

/-- Any other byte adds its six bits. -/
theorem feedByte_more {st : Utf8Pending} {n : ℕ} (hneeded : 1 < st.needed)
    (hlow : st.lower ≤ n + 0x80) (hup : n + 0x80 ≤ st.upper) :
    ∃ st' : Utf8Pending, feedByte (some st) (n + 0x80) = ([], some st')
      ∧ st'.codePoint = st.codePoint * 64 + n ∧ st'.needed = st.needed - 1
      ∧ st'.lower = 0x80 ∧ st'.upper = 0xBF := by
  have hfeed := feedByte.eq_2 (n + 0x80) st
  rw [dif_pos ⟨hlow, hup⟩, dif_neg (show ¬ st.needed ≤ 1 by omega)] at hfeed
  exact ⟨_, hfeed, congrArg (st.codePoint * 64 + ·) (Nat.add_sub_cancel n 0x80), rfl, rfl, rfl⟩

theorem decodeFrom_more {st st' : Utf8Pending} {n : ℕ} (h : n < 64)
    (hfeed : feedByte (some st) (n + 0x80) = ([], some st')) (rest : List UInt8) :
    decodeFrom (some st) (UInt8.ofNat (n + 0x80) :: rest) = decodeFrom (some st') rest := by
  rw [decodeFrom, toNat_tailByte h, hfeed]
  exact List.nil_append _

/-- The first byte of a longer sequence. -/
theorem decode_lead {b : ℕ} (hb : b < 256) {st : Utf8Pending}
    (hstart : startByte b = ([], some st)) (rest : List UInt8) :
    decodeUtf8 (UInt8.ofNat b :: rest) = decodeFrom (some st) rest := by
  have hbyte : (UInt8.ofNat b).toNat = b := by
    rw [UInt8.toNat_ofNat']
    omega
  rw [decodeUtf8, decodeFrom, hbyte, feedByte, hstart]
  rfl

/-- The first byte of two. -/
theorem startByte_two {n : ℕ} (hlow : 2 ≤ n) (hup : n < 32) :
    ∃ st : Utf8Pending, startByte (n + 0xc0) = ([], some st)
      ∧ st.codePoint = n ∧ st.needed = 1 ∧ st.lower = 0x80 ∧ st.upper = 0xBF := by
  have hstart := startByte.eq_1 (n + 0xc0)
  rw [if_neg (show ¬ n + 0xc0 < 0x80 by omega),
    dif_pos (show 0xC2 ≤ n + 0xc0 ∧ n + 0xc0 ≤ 0xDF by omega)] at hstart
  exact ⟨_, hstart, Nat.add_sub_cancel n 0xc0, rfl, rfl, rfl⟩

/-- The first byte of three, `m` being the bits of the second one: after `E0` its range is
narrower. -/
theorem startByte_three {n m : ℕ} (hup : n < 16) (hm : m < 64) (hzero : n = 0 → 32 ≤ m) :
    ∃ st : Utf8Pending, startByte (n + 0xe0) = ([], some st)
      ∧ st.codePoint = n ∧ st.needed = 2 ∧ st.lower ≤ m + 0x80 ∧ m + 0x80 ≤ st.upper := by
  have hstart := startByte.eq_1 (n + 0xe0)
  rw [if_neg (show ¬ n + 0xe0 < 0x80 by omega),
    dif_neg (show ¬ (0xC2 ≤ n + 0xe0 ∧ n + 0xe0 ≤ 0xDF) by omega)] at hstart
  by_cases h0 : n = 0
  · rw [if_pos (show n + 0xe0 = 0xE0 by omega)] at hstart
    refine ⟨_, hstart, h0.symm, rfl, ?_, ?_⟩
    · show 0xA0 ≤ m + 0x80
      omega
    · show m + 0x80 ≤ 0xBF
      omega
  · rw [if_neg (show ¬ n + 0xe0 = 0xE0 by omega),
      dif_pos (show 0xE1 ≤ n + 0xe0 ∧ n + 0xe0 ≤ 0xEF by omega)] at hstart
    refine ⟨_, hstart, Nat.add_sub_cancel n 0xe0, rfl, Nat.le_add_left 0x80 m, ?_⟩
    show m + 0x80 ≤ 0xBF
    omega

/-- The first byte of four: after `F0` and `F4` the range of the second one is narrower. -/
theorem startByte_four {n m : ℕ} (hup : n < 5) (hm : m < 64) (hzero : n = 0 → 16 ≤ m)
    (hlast : n = 4 → m < 16) :
    ∃ st : Utf8Pending, startByte (n + 0xf0) = ([], some st)
      ∧ st.codePoint = n ∧ st.needed = 3 ∧ st.lower ≤ m + 0x80 ∧ m + 0x80 ≤ st.upper := by
  have hstart := startByte.eq_1 (n + 0xf0)
  rw [if_neg (show ¬ n + 0xf0 < 0x80 by omega),
    dif_neg (show ¬ (0xC2 ≤ n + 0xf0 ∧ n + 0xf0 ≤ 0xDF) by omega),
    if_neg (show ¬ n + 0xf0 = 0xE0 by omega),
    dif_neg (show ¬ (0xE1 ≤ n + 0xf0 ∧ n + 0xf0 ≤ 0xEF) by omega)] at hstart
  by_cases h0 : n = 0
  · rw [if_pos (show n + 0xf0 = 0xF0 by omega)] at hstart
    refine ⟨_, hstart, h0.symm, rfl, ?_, ?_⟩
    · show 0x90 ≤ m + 0x80
      omega
    · show m + 0x80 ≤ 0xBF
      omega
  · rw [if_neg (show ¬ n + 0xf0 = 0xF0 by omega),
      dif_pos (show 0xF1 ≤ n + 0xf0 ∧ n + 0xf0 ≤ 0xF4 by omega)] at hstart
    refine ⟨_, hstart, Nat.add_sub_cancel n 0xf0, rfl, Nat.le_add_left 0x80 m, ?_⟩
    show m + 0x80 ≤ if n + 0xf0 = 0xF4 then 0x8F else 0xBF
    split <;> omega

/-- **Round trip of one character.** No surrogate is encoded, so no byte is out of its range. -/
theorem decodeUtf8_encodeChar (c : Char) (rest : List UInt8) :
    decodeUtf8 (String.utf8EncodeChar c ++ rest) = c :: decodeUtf8 rest := by
  have hvalid : c.toNat < 0xd800 ∨ (0xdfff < c.toNat ∧ c.toNat < 0x110000) := c.valid
  have hback : ∀ n, n = c.toNat → utf8Char n = c := by
    intro n hn
    rw [utf8Char, hn, if_pos hvalid, Char.ofNat_toNat]
  fun_cases String.utf8EncodeChar c with
  | case1 v h1 =>
    have hv : v = c.toNat := rfl
    have hbyte : (UInt8.ofNat v).toNat = v := by
      rw [UInt8.toNat_ofNat']
      omega
    rw [← List.nil_append ([UInt8.ofNat v] ++ rest), List.singleton_append,
      decodeUtf8_append_ascii (by omega), hbyte, hv, Char.ofNat_toNat]
    rfl
  | case2 v h1 h2 =>
    have hv : v = c.toNat := rfl
    obtain ⟨st, hlead, hcode, hneed, hl, hu⟩ :=
      startByte_two (n := v / 64 % 32) (by omega) (by omega)
    rw [List.cons_append, decode_lead (by omega) hlead, List.singleton_append,
      decodeFrom_last (by omega) (by omega) (by omega) (by omega), hback]
    omega
  | case3 v h1 h2 h3 =>
    have hv : v = c.toNat := rfl
    obtain ⟨st, hlead, hcode, hneed, hl, hu⟩ := startByte_three (n := v / 4096 % 16)
      (m := v / 64 % 64) (by omega) (by omega) (by omega)
    obtain ⟨st', hmore, hcode', hneed', hl', hu'⟩ := feedByte_more (by omega) hl hu
    rw [List.cons_append, decode_lead (by omega) hlead, List.cons_append,
      decodeFrom_more (by omega) hmore, List.singleton_append,
      decodeFrom_last (by omega) (by omega) (by omega) (by omega), hback]
    omega
  | case4 v h1 h2 h3 =>
    have hv : v = c.toNat := rfl
    obtain ⟨st, hlead, hcode, hneed, hl, hu⟩ := startByte_four (n := v / 262144 % 8)
      (m := v / 4096 % 64) (by omega) (by omega) (by omega) (by omega)
    obtain ⟨st', hmore, hcode', hneed', hl', hu'⟩ := feedByte_more (by omega) hl hu
    obtain ⟨st'', hmore', hcode'', hneed'', hl'', hu''⟩ :=
      @feedByte_more st' (v / 64 % 64) (by omega) (by omega) (by omega)
    rw [List.cons_append, decode_lead (by omega) hlead, List.cons_append,
      decodeFrom_more (by omega) hmore, List.cons_append, decodeFrom_more (by omega) hmore',
      List.singleton_append,
      decodeFrom_last (by omega) (by omega) (by omega) (by omega), hback]
    omega

/-- **Round trip.** Text that was encoded is read back as it was. -/
theorem decodeUtf8_encode (s : List Char) (rest : List UInt8) :
    decodeUtf8 (s.flatMap String.utf8EncodeChar ++ rest) = s ++ decodeUtf8 rest := by
  induction s with
  | nil => rfl
  | cons c s ih =>
    rw [List.flatMap_cons, List.append_assoc, decodeUtf8_encodeChar, ih, List.cons_append]

theorem decodeUtf8_encode_self (s : List Char) :
    decodeUtf8 (s.flatMap String.utf8EncodeChar) = s := by
  have htext := decodeUtf8_encode s []
  rwa [List.append_nil, show decodeUtf8 [] = [] from rfl, List.append_nil] at htext

/-- An ASCII byte of encoded text is one of its characters. -/
theorem ascii_mem_encode {s : List Char} {b : UInt8} (hb : b.toNat < 128)
    (h : b ∈ s.flatMap String.utf8EncodeChar) : Char.ofNat b.toNat ∈ s := by
  obtain ⟨xs, ys, hsplit⟩ := List.append_of_mem h
  have htext := decodeUtf8_encode_self s
  rw [hsplit, decodeUtf8_append_ascii hb] at htext
  rw [← htext]
  exact List.mem_append_right _ List.mem_cons_self

end RoundTrip

/-! ## Lines and fields -/

/-- The last separator cuts a text in one way only. -/
theorem append_cons_inj_right {a : Char} {u u' v v' : List Char} (hv : a ∉ v) (hv' : a ∉ v')
    (h : u ++ a :: v = u' ++ a :: v') : u = u' ∧ v = v' := by
  rcases List.append_eq_append_iff.mp h with ⟨w, hu, hw⟩ | ⟨w, hu, hw⟩
  · cases w with
    | nil => exact ⟨by simpa using hu.symm, (List.cons.inj hw).2⟩
    | cons b w =>
      have hmem : a ∈ v := by
        rw [(List.cons.inj hw).2]
        simp
      exact absurd hmem hv
  · cases w with
    | nil => exact ⟨by simpa using hu, (List.cons.inj hw).2.symm⟩
    | cons b w =>
      have hmem : a ∈ v' := by
        rw [(List.cons.inj hw).2]
        simp
      exact absurd hmem hv'

/-- What `BufferedReader.readLine` comes back with. -/
inductive ReadLine where
  | line (text : List Char)
  /-- `null`: the stream ended. -/
  | eof
  /-- The socket's `SoTimeout` ran out. -/
  | timeout
deriving DecidableEq, Repr

/-- A character that ends a line. -/
def isLineEnd (c : Char) : Bool := c = '\n' || c = '\r'

/-- `readLine` on the bytes that have arrived; `closed` says whether the peer has
closed its side. -/
def readLine (bytes : List UInt8) (closed : Bool) : ReadLine :=
  let text := decodeUtf8 bytes
  if text.any isLineEnd then .line (text.takeWhile fun c => !isLineEnd c)
  else if closed then (if text = [] then .eof else .line text)
  else .timeout

/-- Bytes without an end of line decode to text without one. -/
theorem isLineEnd_decode {body : List UInt8} (h : ∀ b ∈ body, b.toNat ≠ 10 ∧ b.toNat ≠ 13)
    {c : Char} (hc : c ∈ decodeUtf8 body) : isLineEnd c = false := by
  cases hend : isLineEnd c with
  | false => rfl
  | true =>
    have hc' : c = '\n' ∨ c = '\r' := by simpa [isLineEnd] using hend
    rcases hc' with rfl | rfl
    · obtain ⟨b, hb, hval⟩ := byte_of_mem_decode (by decide) body none hc
      exact absurd hval (h b hb).1
    · obtain ⟨b, hb, hval⟩ := byte_of_mem_decode (by decide) body none hc
      exact absurd hval (h b hb).2

/-- The text up to the first newline is a line. -/
theorem readLine_text {bytes : List UInt8} {body rest : List Char}
    (htext : decodeUtf8 bytes = body ++ '\n' :: rest)
    (hbody : ∀ c ∈ body, isLineEnd c = false) (closed : Bool) :
    readLine bytes closed = .line body := by
  have hend : ∀ c ∈ body, (!isLineEnd c) = true := by
    intro c hc
    rw [hbody c hc]
    rfl
  have hany : (body ++ '\n' :: rest).any isLineEnd = true := by
    simp [isLineEnd]
  unfold readLine
  dsimp only
  rw [htext, if_pos hany, List.takeWhile_append_of_pos hend,
    List.takeWhile_cons_of_neg (by decide), List.append_nil]

/-- A complete line is read up to its end. -/
theorem readLine_complete {body : List UInt8} (h : ∀ b ∈ body, b.toNat ≠ 10 ∧ b.toNat ≠ 13)
    (rest : List UInt8) (closed : Bool) :
    readLine (body ++ 10 :: rest) closed = .line (decodeUtf8 body) :=
  readLine_text (decodeUtf8_append_ascii (by decide) body rest) (fun _ => isLineEnd_decode h) closed

/-- A line that was encoded is read as it was. -/
theorem readLine_encode {body : List Char} (h : ∀ c ∈ body, isLineEnd c = false) (closed : Bool) :
    readLine ((body ++ ['\n']).flatMap String.utf8EncodeChar) closed = .line body := by
  exact readLine_text (decodeUtf8_encode_self (body ++ ['\n'])) h closed

/-- Without an end of line, and with the socket left open, the read times out. -/
theorem readLine_incomplete {body : List UInt8} (h : ∀ b ∈ body, b.toNat ≠ 10 ∧ b.toNat ≠ 13) :
    readLine body false = .timeout := by
  have hany : (decodeUtf8 body).any isLineEnd = false := by
    rw [List.any_eq_false]
    intro c hc
    rw [isLineEnd_decode h hc]
    decide
  unfold readLine
  dsimp only
  rw [hany]
  rfl

/-- The characters `trim` removes. -/
def isBlank (c : Char) : Bool := c.toNat ≤ 32

/-- `String.trim` -/
def javaTrim (s : List Char) : List Char := (s.dropWhile isBlank).rdropWhile isBlank

/-- `String.split` at one character: trailing empty strings are dropped, and a
text without the separator is one piece. -/
def javaSplit (sep : Char) (s : List Char) : List (List Char) :=
  if sep ∈ s then (s.splitOn sep).rdropWhile fun t => t.isEmpty else [s]

/-- A text that neither begins nor ends with a blank is left alone. -/
theorem javaTrim_eq_self {s : List Char} (hhead : ∀ c ∈ s.head?, isBlank c = false)
    (hlast : ∀ c ∈ s.getLast?, isBlank c = false) : javaTrim s = s := by
  cases s with
  | nil => rfl
  | cons c cs =>
    have hdrop : (c :: cs).dropWhile isBlank = c :: cs :=
      List.dropWhile_cons_of_neg (by rw [hhead c rfl]; decide)
    unfold javaTrim
    rw [hdrop, List.rdropWhile_eq_self_iff]
    intro hne
    rw [hlast _ (List.getLast?_eq_getLast_of_ne_nil hne)]
    decide

/-- An element of a joined list is the separator or from one of the fields. -/
theorem mem_intercalate {α : Type*} {sep b : α} {fields : List (List α)}
    (h : b ∈ [sep].intercalate fields) : b = sep ∨ ∃ f ∈ fields, b ∈ f := by
  induction fields with
  | nil => simp at h
  | cons f fs ih =>
    cases fs with
    | nil => exact .inr ⟨f, List.mem_cons_self, by simpa using h⟩
    | cons f' fs =>
      rw [List.intercalate_cons_cons, List.append_assoc, List.singleton_append,
        List.mem_append, List.mem_cons] at h
      rcases h with h | h | h
      · exact .inr ⟨f, List.mem_cons_self, h⟩
      · exact .inl h
      · rcases ih h with h | ⟨g, hg, hb⟩
        · exact .inl h
        · exact .inr ⟨g, List.mem_cons_of_mem f hg, hb⟩

/-- A joined text begins with its first field. -/
theorem intercalate_cons_eq_append (sep : Char) (f : List Char) (fs : List (List Char)) :
    ∃ post, [sep].intercalate (f :: fs) = f ++ post := by
  cases fs with
  | nil => exact ⟨[], by simp⟩
  | cons f' fs => exact ⟨_, by rw [List.intercalate_cons_cons, List.append_assoc]⟩

/-- A joined text ends with its last field. -/
theorem intercalate_concat_eq_append (sep : Char) (init : List (List Char)) (f : List Char) :
    ∃ pre, [sep].intercalate (init ++ [f]) = pre ++ f := by
  induction init with
  | nil => exact ⟨[], by simp⟩
  | cons g gs ih =>
    obtain ⟨pre, hpre⟩ := ih
    cases hgs : gs ++ [f] with
    | nil => simp at hgs
    | cons x xs =>
      rw [hgs] at hpre
      refine ⟨g ++ [sep] ++ pre, ?_⟩
      rw [List.cons_append, hgs, List.intercalate_cons_cons, hpre]
      simp only [List.append_assoc]

/-- Splitting what was joined splits the fields. -/
theorem splitOn_intercalate_flatMap (sep : Char) {fields : List (List Char)} (hne : fields ≠ []) :
    ([sep].intercalate fields).splitOn sep = fields.flatMap fun f => f.splitOn sep := by
  induction fields with
  | nil => exact absurd rfl hne
  | cons f fs ih =>
    cases fs with
    | nil => simp
    | cons f' fs =>
      rw [List.intercalate_cons_cons, List.append_assoc, List.singleton_append,
        List.splitOn_append_cons_self, ih (by simp)]
      rfl

/-- A text that is one piece does not contain the separator. -/
theorem notMem_of_splitOn_length {sep : Char} {f : List Char} (h : (f.splitOn sep).length = 1) :
    sep ∉ f := by
  intro hmem
  obtain ⟨xs, ys, rfl⟩ := List.append_of_mem hmem
  rw [List.splitOn_append_cons_self, List.length_append] at h
  have hx := List.length_pos_iff.mpr (List.splitOn_ne_nil sep xs)
  have hy := List.length_pos_iff.mpr (List.splitOn_ne_nil sep ys)
  omega

/-- Fields without the separator are one piece each. -/
theorem flatMap_splitOn_of_notMem {sep : Char} {fields : List (List Char)}
    (h : ∀ f ∈ fields, sep ∉ f) : (fields.flatMap fun f => f.splitOn sep) = fields := by
  induction fields with
  | nil => rfl
  | cons f fs ih =>
    rw [List.flatMap_cons, List.splitOn_eq_singleton (h f List.mem_cons_self),
      ih fun g hg => h g (List.mem_cons_of_mem f hg), List.singleton_append]

/-- As many pieces as fields means that no field was cut. -/
theorem notMem_of_flatMap_length {sep : Char} {fields : List (List Char)}
    (h : (fields.flatMap fun f => f.splitOn sep).length = fields.length) :
    ∀ f ∈ fields, sep ∉ f := by
  have hpos : ∀ f : List Char, 1 ≤ (f.splitOn sep).length :=
    fun f => List.length_pos_iff.mpr (List.splitOn_ne_nil sep f)
  have hle : ∀ l : List (List Char), l.length ≤ (l.flatMap fun f => f.splitOn sep).length := by
    intro l
    induction l with
    | nil => exact le_refl 0
    | cons f l ih =>
      have hf := hpos f
      rw [List.flatMap_cons, List.length_append, List.length_cons]
      omega
  induction fields with
  | nil => simp
  | cons f fs ih =>
    have hf := hpos f
    have hfs := hle fs
    rw [List.flatMap_cons, List.length_append, List.length_cons] at h
    intro g hg
    rcases List.mem_cons.mp hg with rfl | hg
    · exact notMem_of_splitOn_length (by omega)
    · exact ih (by omega) g hg

/-- Java's `split` drops nothing when the last field is one non-empty piece. -/
theorem javaSplit_intercalate {sep : Char} {init : List (List Char)} {final : List Char}
    (hsep : sep ∉ final) (hne : final ≠ []) :
    javaSplit sep ([sep].intercalate (init ++ [final]))
      = (init.flatMap fun f => f.splitOn sep) ++ [final] := by
  have hsplit : ([sep].intercalate (init ++ [final])).splitOn sep
      = (init.flatMap fun f => f.splitOn sep) ++ [final] := by
    rw [splitOn_intercalate_flatMap sep (by simp), List.flatMap_append, List.flatMap_singleton,
      List.splitOn_eq_singleton hsep]
  unfold javaSplit
  split
  next =>
    rw [hsplit, List.rdropWhile_concat_neg _ _ _ (by simpa using hne)]
  next hmem => rw [← hsplit, List.splitOn_eq_singleton hmem]

end Dittor.Lib

import Mathlib
import Dittor.Lib.Checks
import Dittor.Tor.EscapedString

/-!
# Key-value lines (`kvline.c`)

`kvline_encode` writes a list as `Key=Value` pairs and escapes the values that would not be read back
as they are; `kvline_parse` reads such pairs. The two do not agree on what a space is: the encoder
escapes what `TOR_ISSPACE` says, and the parser ends a word at one of five bytes, which are all among
them. So a value without quotes is one word of the parser (`kvlineItem_kvElement`).

Each turn of the loop of `kvline_parse` takes an item of at least one byte, so that it ends and never
stands where it stood before (`kvlineLoop_ends`).
-/

namespace Dittor.Tor.Kvline

open Dittor.Lib

/-- The flags `KV_*`. -/
structure KvFlags where
  quoted : Bool
  omitKeys : Bool
  omitVals : Bool
  quotedQstring : Bool
  raw : Bool

/-- `config_line_t`: the key may be `NULL`. -/
structure ConfigLine where
  key : Option Bytes
  value : Bytes
deriving DecidableEq

/-- How a call ends without a list: an assertion, `err`, `BUG(cp == cplast)`, or a quoted string that
is longer than an `int` can say. -/
inductive KvStop where
  | assertion
  | err
  | bug
  | overflow
deriving DecidableEq

/-! ## Encoding -/

/-- `TOR_ISSPACE` -/
def torIsSpace (c : UInt8) : Bool := (9 ≤ c.toNat ∧ c.toNat ≤ 13) ∨ c.toNat = 32

/-- The bytes that `needs_escape` looks for. -/
def needsEscapeChar (c : UInt8) : Bool :=
  c.toNat ≥ 127 || torIsSpace c || !torIsPrint c || c = byte '\'' || c = byte '"'

/-- `needs_escape` -/
def needsEscape (s : Bytes) (asKeylessVal : Bool) : Bool :=
  if asKeylessVal && s.isEmpty then true
  else if asKeylessVal && s.contains (byte '=') then true
  else s.any needsEscapeChar

/-- `line_has_no_key` -/
def lineHasNoKey (line : ConfigLine) : Bool :=
  match line.key with
  | none => true
  | some key => key.isEmpty

/-- `line_has_no_val` -/
def lineHasNoVal (line : ConfigLine) : Bool := line.value.isEmpty

/-- One turn of the loop of `kvline_can_encode_lines`. -/
def kvlineCanEncodeLine (flags : KvFlags) (line : ConfigLine) : Bool :=
  let keyless := lineHasNoKey line
  if keyless && !flags.omitKeys then false
  else if needsEscape line.value keyless && !(flags.quoted || flags.raw) then false
  else if !keyless && needsEscape (line.key.getD []) true then false
  else true

/-- `kvline_can_encode_lines` -/
def kvlineCanEncodeLines (lines : List ConfigLine) (flags : KvFlags) : Bool :=
  lines.all (kvlineCanEncodeLine flags)

/-- What `kvline_encode` adds for a line. -/
def kvElement (flags : KvFlags) (line : ConfigLine) : Bytes :=
  let keyless := lineHasNoKey line
  let esc := needsEscape line.value keyless
  let k := if keyless then [] else line.key.getD []
  let eq := if keyless then [] else [byte '=']
  if flags.omitVals && lineHasNoVal line then k
  else if !flags.raw && esc then k ++ eq ++ escForLog line.value
  else k ++ eq ++ line.value

/-- `kvline_encode` -/
def kvlineEncode (lines : List ConfigLine) (flags : KvFlags) : Except KvStop (Option Bytes) := do
  torAssert (¬ flags.quotedQstring) .assertion
  torAssert (¬ (flags.omitKeys ∧ flags.omitVals)) .assertion
  torAssert (¬ (flags.quoted ∧ flags.raw)) .assertion
  if kvlineCanEncodeLines lines flags then
    return some ([byte ' '].intercalate (lines.map (kvElement flags)))
  else return none

/-! ## Parsing -/

/-- `" \t\r\v\n"` -/
def isBlank (c : UInt8) : Bool :=
  c = byte ' ' || c = byte '\t' || c = byte '\r' || c = 11 || c = byte '\n'

/-- `" \t\r\v\n="` -/
def endsKey (c : UInt8) : Bool := isBlank c || c = byte '='

/-- `strlen` of a buffer: the bytes before the first NUL. -/
def strlen (s : Bytes) : ℕ := (s.takeWhile (· ≠ 0)).length

/-- Where the key ends: the key, what is behind it, and whether `commit` is next. -/
def kvlineKey (flags : KvFlags) (cp : Bytes) : Except KvStop (Option Bytes × Bytes × Bool) :=
  if cp.head? ≠ some (byte '"') then
    let key := cp.takeWhile fun c => !endsKey c
    let rest := cp.dropWhile fun c => !endsKey c
    if rest.head? = some (byte '=') then .ok (some key, rest.drop 1, false)
    else if flags.omitVals then .ok (some key, rest, true)
    else if ¬ flags.omitKeys then .error .err
    else .ok (none, cp, false)
  else .ok (none, cp, false)

/-- A quoted value with its length, and what is behind it. -/
def kvlineQuoted (flags : KvFlags) (cp : Bytes) : Except KvStop (Bytes × ℕ × Bytes) :=
  if flags.quoted then
    match unescapeString cp with
    | none => .error .err
    | some (val, rest) => .ok (val, val.length, rest)
  else
    match decodeQstring cp with
    | none => .error .err
    | some (val, len, rest) =>
      if cp.length - rest.length > 2147483647 then .error .overflow else .ok (val, len, rest)

/-- The value, and what is behind it. -/
def kvlineValue (flags : KvFlags) (cp : Bytes) : Except KvStop (Bytes × Bytes) :=
  if cp.head? = some (byte '"') then
    if ¬ (flags.quoted || flags.quotedQstring) then .error .err
    else do
      let (val, len, rest) ← kvlineQuoted flags cp
      if len ≠ strlen val then .error .err else return (val, rest)
  else .ok (cp.takeWhile fun c => !isBlank c, cp.dropWhile fun c => !isBlank c)

/-- The value, if it is not skipped by `goto commit`. -/
def kvlineVal (flags : KvFlags) (commit : Bool) (cp : Bytes) : Except KvStop (Bytes × Bytes) :=
  if commit then .ok ([], cp) else kvlineValue flags cp

/-- One item: the line that is committed, and what is behind it. -/
def kvlineItem (flags : KvFlags) (cp : Bytes) : Except KvStop (ConfigLine × Bytes) := do
  let (key, cp, commit) ← kvlineKey flags cp
  let (val, cp) ← kvlineVal flags commit cp
  if key = some [] then .error .err
  else return (⟨some (key.getD []), val⟩, cp)

/-- The loop of `kvline_parse`: `cplast` is what was left at the last turn. `none`: out of fuel. -/
def kvlineLoop (flags : KvFlags) : ℕ → Option ℕ → Bytes → List ConfigLine →
    Option (Except KvStop (List ConfigLine))
  | 0, _, _, _ => none
  | fuel + 1, cplast, cp, result =>
    if cp = [] then some (.ok result)
    else
      let cp := cp.dropWhile isBlank
      if cplast = some cp.length then some (.error .bug)
      else if cp = [] then some (.ok result)
      else
        match kvlineItem flags cp with
        | .error e => some (.error e)
        | .ok (line, rest) => kvlineLoop flags fuel (some cp.length) rest (result ++ [line])

/-- `kvline_parse`; the source returns `NULL` for `err`, and for the empty list. -/
def kvlineParse (line : Bytes) (flags : KvFlags) : Option (Except KvStop (List ConfigLine)) :=
  if (flags.omitKeys ∧ flags.omitVals) ∨ flags.raw then some (.error .assertion)
  else
    match kvlineLoop flags (line.length + 1) none line [] with
    | some (.ok result) =>
      if !flags.quotedQstring && !kvlineCanEncodeLines result flags then some (.error .err)
      else some (.ok result)
    | r => r

/-! ## One item -/

section Item

variable {flags : KvFlags} {cp rest : Bytes}

/-- What `kvline_parse` returns for a line. -/
def ConfigLine.withKey (line : ConfigLine) : ConfigLine := ⟨some (line.key.getD []), line.value⟩

theorem needsEscapeChar_of_isBlank {c : UInt8} (h : isBlank c = true) : needsEscapeChar c = true := by
  unfold isBlank at h
  simp only [Bool.or_eq_true, decide_eq_true_eq] at h
  rcases h with (((rfl | rfl) | rfl) | rfl) | rfl
  all_goals rfl

theorem of_needsEscape {s : Bytes} {keyless : Bool} (h : needsEscape s keyless = false) :
    ∀ c ∈ s, needsEscapeChar c = false := by
  unfold needsEscape at h
  split at h
  · exact nomatch h
  · split at h
    · exact nomatch h
    · intro c hc
      simpa using List.any_eq_false.mp h c hc

/-- A value that needs no quotes is one word. -/
theorem plain_of_needsEscape {s : Bytes} {keyless : Bool} (h : needsEscape s keyless = false) :
    ∀ c ∈ s, isBlank c = false ∧ c ≠ byte '"' := by
  intro c hc
  have hplain := of_needsEscape h c hc
  refine ⟨?_, fun hquote => ?_⟩
  · by_contra hblank
    rw [needsEscapeChar_of_isBlank (by simpa using hblank)] at hplain
    exact nomatch hplain
  · rw [hquote] at hplain
    exact absurd hplain (by decide)

/-- Without a key it is not empty, and has no `=`. -/
theorem keyless_of_needsEscape {s : Bytes} (h : needsEscape s true = false) :
    s ≠ [] ∧ ∀ c ∈ s, endsKey c = false := by
  have hplain := plain_of_needsEscape h
  unfold needsEscape at h
  rw [Bool.true_and] at h
  split at h
  · exact nomatch h
  · next hempty =>
    rw [Bool.true_and] at h
    split at h
    · exact nomatch h
    · next heq =>
      refine ⟨fun hnil => hempty (by rw [hnil]; rfl), fun c hc => ?_⟩
      rw [endsKey, (hplain c hc).1, Bool.false_or, decide_eq_false_iff_not]
      intro hce
      exact heq (List.contains_iff_mem.mpr (hce ▸ hc))

/-- A word ends where what follows it begins. -/
theorem word_append {p : UInt8 → Bool} {word : Bytes} (hword : ∀ c ∈ word, p c = false)
    (hrest : ∀ c ∈ rest.head?, p c = true) :
    (word ++ rest).takeWhile (fun c => !p c) = word
      ∧ (word ++ rest).dropWhile (fun c => !p c) = rest := by
  have hneg : ∀ c ∈ word, (!p c) = true := by
    intro c hc
    rw [hword c hc]
    rfl
  rw [List.takeWhile_append_of_pos hneg, List.dropWhile_append_of_pos hneg]
  cases rest with
  | nil => exact ⟨List.append_nil word, rfl⟩
  | cons c rest =>
    have hc := hrest c rfl
    simp [hc]

/-- What stands behind an element: nothing, or the space that joins it to the next one. -/
def Joined (rest : Bytes) : Prop := ∀ c ∈ rest.head?, c = byte ' '

theorem Joined.isBlank (h : Joined rest) : ∀ c ∈ rest.head?, isBlank c = true := by
  intro c hc
  rw [h c hc]
  decide

theorem Joined.head_ne (h : Joined rest) {c : UInt8} (hc : c ≠ byte ' ') : rest.head? ≠ some c :=
  fun hhead => hc (h c hhead)

theorem strlen_eq {s : Bytes} (h : 0 ∉ s) : strlen s = s.length := by
  unfold strlen
  rw [List.takeWhile_eq_self_iff.mpr]
  intro c hc
  exact decide_eq_true fun hzero => h (hzero ▸ hc)

/-- A value that is escaped. -/
theorem kvlineValue_escForLog {val : Bytes} (hquoted : flags.quoted = true) (hval : 0 ∉ val) :
    kvlineValue flags (escForLog val ++ rest) = .ok (val, rest) := by
  have hhead : (escForLog val ++ rest).head? = some (byte '"') := rfl
  unfold kvlineValue kvlineQuoted
  rw [if_pos hhead, if_neg (by rw [hquoted]; simp), if_pos hquoted, unescapeString_escForLog]
  change (if val.length ≠ strlen val then _ else _) = _
  rw [if_neg (not_not.mpr (strlen_eq hval).symm)]
  rfl

/-- A value that is not. -/
theorem kvlineValue_plain {val : Bytes} (hval : ∀ c ∈ val, isBlank c = false ∧ c ≠ byte '"')
    (hrest : Joined rest) : kvlineValue flags (val ++ rest) = .ok (val, rest) := by
  have hhead : (val ++ rest).head? ≠ some (byte '"') := by
    cases val with
    | nil => exact hrest.head_ne (by decide)
    | cons c val =>
      intro hc
      exact (hval c List.mem_cons_self).2 (Option.some.inj hc)
  obtain ⟨htake, hdrop⟩ := word_append (fun c hc => (hval c hc).1) hrest.isBlank
  unfold kvlineValue
  rw [if_neg hhead, htake, hdrop]

/-- A key with what follows it. -/
theorem kvlineKey_word {key : Bytes} (hkey : needsEscape key true = false)
    (hrest : ∀ c ∈ rest.head?, endsKey c = true) :
    kvlineKey flags (key ++ rest) =
      if rest.head? = some (byte '=') then .ok (some key, rest.drop 1, false)
      else if flags.omitVals then .ok (some key, rest, true)
      else if ¬ flags.omitKeys then .error .err
      else .ok (none, key ++ rest, false) := by
  obtain ⟨hne, hends⟩ := keyless_of_needsEscape hkey
  have hplain := plain_of_needsEscape hkey
  have hhead : (key ++ rest).head? ≠ some (byte '"') := by
    cases key with
    | nil => exact absurd rfl hne
    | cons c key =>
      intro hc
      exact (hplain c List.mem_cons_self).2 (Option.some.inj hc)
  obtain ⟨htake, hdrop⟩ := word_append hends hrest
  unfold kvlineKey
  rw [if_pos hhead, htake, hdrop]

theorem Joined.endsKey (h : Joined rest) : ∀ c ∈ rest.head?, endsKey c = true := by
  intro c hc
  rw [Kvline.endsKey, h.isBlank c hc, Bool.true_or]

/-- What it takes to encode a line without `KV_RAW`. -/
theorem of_canEncodeLine {line : ConfigLine} (hraw : flags.raw = false)
    (hcan : kvlineCanEncodeLine flags line = true) :
    (lineHasNoKey line = true → flags.omitKeys = true)
    ∧ (needsEscape line.value (lineHasNoKey line) = true → flags.quoted = true)
    ∧ (lineHasNoKey line = false → needsEscape (line.key.getD []) true = false) := by
  unfold kvlineCanEncodeLine at hcan
  dsimp only at hcan
  rw [hraw, Bool.or_false] at hcan
  split at hcan
  · exact nomatch hcan
  · next hkeys =>
    split at hcan
    · exact nomatch hcan
    · next hescape =>
      split at hcan
      · exact nomatch hcan
      · next hword =>
        refine ⟨fun hkeyless => ?_, fun hesc => ?_, fun hkeyed => ?_⟩
        · simpa [hkeyless] using hkeys
        · simpa [hesc] using hescape
        · simpa [hkeyed] using hword

/-- A line without a key. -/
theorem kvlineItem_keyless {val : Bytes} (hkeys : flags.omitKeys = true)
    (hvals : flags.omitVals = false) (hquoted : needsEscape val true = true → flags.quoted = true)
    (hval : 0 ∉ val) (hrest : Joined rest) :
    kvlineItem flags ((if needsEscape val true then escForLog val else val) ++ rest)
      = .ok (⟨some [], val⟩, rest) := by
  unfold kvlineItem
  cases hesc : needsEscape val true with
  | true =>
    have hhead : (escForLog val ++ rest).head? = some (byte '"') := rfl
    have hkey : kvlineKey flags (escForLog val ++ rest)
        = .ok (none, escForLog val ++ rest, false) := by
      unfold kvlineKey
      rw [if_neg (not_not.mpr hhead)]
    rw [if_pos rfl, hkey]
    change (kvlineValue flags (escForLog val ++ rest) >>= _) = _
    rw [kvlineValue_escForLog (hquoted hesc) hval]
    rfl
  | false =>
    rw [if_neg Bool.false_ne_true, kvlineKey_word hesc hrest.endsKey,
      if_neg (hrest.head_ne (by decide)), hvals, if_neg Bool.false_ne_true, hkeys,
      if_neg (not_not.mpr rfl)]
    change (kvlineValue flags (val ++ rest) >>= _) = _
    rw [kvlineValue_plain (plain_of_needsEscape hesc) hrest]
    rfl

/-- A line with a key. -/
theorem kvlineItem_keyed {key val : Bytes} (hword : needsEscape key true = false)
    (hquoted : needsEscape val false = true → flags.quoted = true) (hval : 0 ∉ val)
    (hrest : Joined rest) :
    kvlineItem flags ((key ++ [byte '='] ++ if needsEscape val false then escForLog val else val)
      ++ rest) = .ok (⟨some key, val⟩, rest) := by
  have hkey : ∀ text, kvlineKey flags (key ++ [byte '='] ++ text) = .ok (some key, text, false) := by
    intro text
    have hequals : ∀ c ∈ ([byte '='] ++ text).head?, endsKey c = true := by
      intro c hc
      obtain rfl := Option.some.inj hc
      rfl
    rw [List.append_assoc, kvlineKey_word hword hequals]
    rfl
  have hcommit : (if some key = some ([] : Bytes) then Except.error KvStop.err
      else .ok (ConfigLine.mk (some key) val, rest)) = .ok (⟨some key, val⟩, rest) :=
    if_neg fun h => (keyless_of_needsEscape hword).1 (Option.some.inj h)
  unfold kvlineItem
  rw [List.append_assoc, hkey]
  cases hesc : needsEscape val false with
  | true =>
    rw [if_pos rfl]
    change (kvlineValue flags (escForLog val ++ rest) >>= _) = _
    rw [kvlineValue_escForLog (hquoted hesc) hval]
    exact hcommit
  | false =>
    rw [if_neg Bool.false_ne_true]
    change (kvlineValue flags (val ++ rest) >>= _) = _
    rw [kvlineValue_plain (plain_of_needsEscape hesc) hrest]
    exact hcommit

/-- A key without its value. -/
theorem kvlineItem_key {key : Bytes} (hword : needsEscape key true = false)
    (hvals : flags.omitVals = true) (hrest : Joined rest) :
    kvlineItem flags (key ++ rest) = .ok (⟨some key, []⟩, rest) := by
  unfold kvlineItem
  rw [kvlineKey_word hword hrest.endsKey, if_neg (hrest.head_ne (by decide)), if_pos hvals]
  exact if_neg fun h => (keyless_of_needsEscape hword).1 (Option.some.inj h)

/-- **One item**: an element is read back as its line. -/
theorem kvlineItem_kvElement {line : ConfigLine} (hraw : flags.raw = false)
    (homit : ¬ (flags.omitKeys ∧ flags.omitVals)) (hcan : kvlineCanEncodeLine flags line = true)
    (hval : 0 ∉ line.value) (hrest : Joined rest) :
    kvlineItem flags (kvElement flags line ++ rest) = .ok (line.withKey, rest) := by
  obtain ⟨hkeys, hquoted, hword⟩ := of_canEncodeLine hraw hcan
  unfold kvElement ConfigLine.withKey
  dsimp only
  rw [hraw, Bool.not_false, Bool.true_and]
  cases hkeyless : lineHasNoKey line with
  | true =>
    rw [hkeyless] at hquoted
    have hkey : line.key.getD [] = [] := by
      unfold lineHasNoKey at hkeyless
      split at hkeyless
      · next hnone => rw [hnone, Option.getD_none]
      · next key hsome => rw [hsome, Option.getD_some, List.isEmpty_iff.mp hkeyless]
    have hvals : flags.omitVals = false := by
      by_contra h
      exact homit ⟨hkeys hkeyless, by simpa using h⟩
    rw [hvals, Bool.false_and, if_neg Bool.false_ne_true, if_pos rfl, if_pos rfl, hkey,
      ← kvlineItem_keyless (hkeys hkeyless) hvals hquoted hval hrest]
    split
    · rfl
    · rfl
  | false =>
    rw [hkeyless] at hquoted
    rw [if_neg Bool.false_ne_true, if_neg Bool.false_ne_true]
    by_cases hempty : (flags.omitVals && lineHasNoVal line) = true
    · rw [if_pos hempty]
      rw [Bool.and_eq_true] at hempty
      have hnil : line.value = [] := List.isEmpty_iff.mp hempty.2
      rw [hnil, kvlineItem_key (hword hkeyless) hempty.1 hrest]
    · rw [if_neg hempty, ← kvlineItem_keyed (hword hkeyless) hquoted hval hrest]
      split
      · rfl
      · rfl

/-- An element begins an item. -/
theorem kvElement_starts {line : ConfigLine} (hraw : flags.raw = false)
    (homit : ¬ (flags.omitKeys ∧ flags.omitVals)) (hcan : kvlineCanEncodeLine flags line = true) :
    ∃ c text, kvElement flags line = c :: text ∧ isBlank c = false := by
  obtain ⟨hkeys, -, hword⟩ := of_canEncodeLine hraw hcan
  unfold kvElement
  dsimp only
  rw [hraw, Bool.not_false, Bool.true_and]
  cases hkeyless : lineHasNoKey line with
  | true =>
    have hvals : flags.omitVals = false := by
      by_contra h
      exact homit ⟨hkeys hkeyless, by simpa using h⟩
    rw [hvals, Bool.false_and, if_neg Bool.false_ne_true, if_pos rfl, if_pos rfl]
    cases hesc : needsEscape line.value true with
    | true => exact ⟨byte '"', _, rfl, rfl⟩
    | false =>
      obtain ⟨c, val, hval⟩ := List.exists_cons_of_ne_nil (keyless_of_needsEscape hesc).1
      refine ⟨c, val, hval, (plain_of_needsEscape hesc c ?_).1⟩
      rw [hval]
      exact List.mem_cons_self
  | false =>
    have hplain := plain_of_needsEscape (hword hkeyless)
    obtain ⟨c, key, hkey⟩ := List.exists_cons_of_ne_nil (keyless_of_needsEscape (hword hkeyless)).1
    rw [hkey] at hplain ⊢
    have hc := (hplain c List.mem_cons_self).1
    split
    · exact ⟨c, key, rfl, hc⟩
    · split
      · exact ⟨c, _, rfl, hc⟩
      · exact ⟨c, _, rfl, hc⟩

end Item

/-! ## What was encoded -/

section Encoded

variable {flags : KvFlags} {lines : List ConfigLine}

/-- What the elements of the remaining lines leave in the text: each behind a space. -/
def kvTail (flags : KvFlags) (lines : List ConfigLine) : Bytes :=
  lines.flatMap fun line => byte ' ' :: kvElement flags line

theorem intercalate_kvElement (flags : KvFlags) : ∀ lines : List ConfigLine,
    [byte ' '].intercalate (lines.map (kvElement flags)) = (kvTail flags lines).drop 1
  | [] => rfl
  | [line] => by
    rw [List.map_singleton, List.intercalate_singleton, kvTail, List.flatMap_singleton,
      List.drop_one, List.tail_cons]
  | line :: line' :: lines => by
    have ih := intercalate_kvElement flags (line' :: lines)
    rw [List.map_cons] at ih ⊢
    rw [List.map_cons, List.intercalate_cons_cons, ih]
    unfold kvTail
    simp only [List.flatMap_cons, List.cons_append, List.drop_one, List.tail_cons, List.append_assoc,
      List.nil_append]

theorem joined_kvTail (flags : KvFlags) (lines : List ConfigLine) : Joined (kvTail flags lines) := by
  cases lines with
  | nil => exact fun _ h => nomatch h
  | cons line lines => exact fun _ h => (Option.some.inj h).symm

/-- The loop reads the lines that are left, one at a turn. -/
theorem kvlineLoop_lines (hraw : flags.raw = false) (homit : ¬ (flags.omitKeys ∧ flags.omitVals))
    (hcan : kvlineCanEncodeLines lines flags = true) (hval : ∀ line ∈ lines, 0 ∉ line.value)
    {fuel : ℕ} {cplast : Option ℕ} {cp : Bytes} {result : List ConfigLine}
    (hcp : cp.dropWhile isBlank = (kvTail flags lines).drop 1) (hfuel : cp.length < fuel)
    (hlast : ∀ n ∈ cplast, cp.length < n) :
    kvlineLoop flags fuel cplast cp result
      = some (.ok (result ++ lines.map ConfigLine.withKey)) := by
  induction lines generalizing fuel cplast cp result with
  | nil =>
    obtain ⟨fuel, rfl⟩ := Nat.exists_eq_succ_of_ne_zero (Nat.ne_zero_of_lt hfuel)
    rw [kvlineLoop, List.map_nil, List.append_nil, hcp]
    split
    · rfl
    · have hbug : cplast ≠ some 0 := fun h => absurd (hlast 0 h) (Nat.not_lt_zero _)
      exact if_neg hbug
  | cons line lines ih =>
    obtain ⟨fuel, rfl⟩ := Nat.exists_eq_succ_of_ne_zero (Nat.ne_zero_of_lt hfuel)
    unfold kvlineCanEncodeLines at hcan
    rw [List.all_cons, Bool.and_eq_true] at hcan
    have hstart : cp.dropWhile isBlank = kvElement flags line ++ kvTail flags lines := by
      rw [hcp]
      rfl
    have hitem := kvlineItem_kvElement hraw homit hcan.1 (hval line List.mem_cons_self)
      (joined_kvTail flags lines)
    obtain ⟨c, text, helement, -⟩ := kvElement_starts hraw homit hcan.1
    have hlength := length_dropWhile_le isBlank cp
    have hshorter : (kvTail flags lines).length < (cp.dropWhile isBlank).length := by
      rw [hstart, helement, List.length_append, List.length_cons]
      omega
    have hnext : (kvTail flags lines).dropWhile isBlank = (kvTail flags lines).drop 1 := by
      cases lines with
      | nil => rfl
      | cons line' lines =>
        rw [List.all_cons, Bool.and_eq_true] at hcan
        obtain ⟨c', text', helement', hblank⟩ := kvElement_starts hraw homit hcan.2.1
        unfold kvTail
        rw [List.flatMap_cons, helement']
        change List.dropWhile isBlank (byte ' ' :: c' :: _) = _
        rw [List.dropWhile_cons_of_pos rfl,
          List.dropWhile_cons_of_neg (by rw [hblank]; exact Bool.false_ne_true)]
        rfl
    have hne : cp.dropWhile isBlank ≠ [] := by
      intro h
      rw [h] at hshorter
      exact absurd hshorter (Nat.not_lt_zero _)
    have hcp' : cp ≠ [] := by
      rintro rfl
      exact hne rfl
    have hbug : cplast ≠ some (cp.dropWhile isBlank).length := by
      intro h
      have := hlast _ h
      omega
    rw [kvlineLoop, if_neg hcp']
    dsimp only
    rw [if_neg hbug, if_neg hne, hstart, hitem]
    dsimp only
    rw [ih hcan.2 (fun line' hline' => hval line' (List.mem_cons_of_mem _ hline')) hnext
      (by omega) ?_]
    · rw [List.map_cons, List.append_assoc, List.singleton_append]
    · intro n hn
      obtain rfl := Option.some.inj hn
      rw [hstart] at hshorter
      exact hshorter

/-- What is read back can be encoded, too. -/
theorem canEncodeLine_withKey (line : ConfigLine) :
    kvlineCanEncodeLine flags line.withKey = kvlineCanEncodeLine flags line := by
  have hkeyless : lineHasNoKey line.withKey = lineHasNoKey line := by
    unfold lineHasNoKey ConfigLine.withKey
    cases line.key with
    | none => rfl
    | some key => rfl
  unfold kvlineCanEncodeLine
  rw [hkeyless]
  rfl

/-- An element is a C string. -/
theorem zero_notMem_kvElement {line : ConfigLine} (hraw : flags.raw = false)
    (hcan : kvlineCanEncodeLine flags line = true) (hval : 0 ∉ line.value) :
    0 ∉ kvElement flags line := by
  obtain ⟨-, -, hword⟩ := of_canEncodeLine hraw hcan
  have hkey : 0 ∉ if lineHasNoKey line then [] else line.key.getD [] := by
    cases hkeyless : lineHasNoKey line with
    | true => exact List.not_mem_nil
    | false =>
      intro hmem
      exact absurd (of_needsEscape (hword hkeyless) 0 hmem) (by decide)
  have hequals : 0 ∉ if lineHasNoKey line then [] else [byte '='] := by
    split
    · exact List.not_mem_nil
    · decide
  unfold kvElement
  dsimp only
  split
  · exact hkey
  · split
    · simp only [List.mem_append, not_or]
      exact ⟨⟨hkey, hequals⟩, zero_notMem_escForLog line.value⟩
    · simp only [List.mem_append, not_or]
      exact ⟨⟨hkey, hequals⟩, hval⟩

end Encoded

/-! ## Every text -/

section Ends

variable {flags : KvFlags} {cp rest : Bytes}

theorem bind_ne_bug {α β : Type} {x : Except KvStop α} {f : α → Except KvStop β}
    (hx : x ≠ .error .bug) (hf : ∀ a, f a ≠ .error .bug) : (x >>= f) ≠ .error .bug := by
  cases x with
  | error e =>
    intro h
    exact hx (congrArg Except.error (Except.error.inj h))
  | ok a => exact hf a

theorem kvlineKey_ne_bug : kvlineKey flags cp ≠ .error .bug := by
  unfold kvlineKey
  split
  · dsimp only
    split
    · nofun
    · split
      · nofun
      · split
        · nofun
        · nofun
  · nofun

theorem kvlineQuoted_ne_bug : kvlineQuoted flags cp ≠ .error .bug := by
  unfold kvlineQuoted
  split
  · split
    · nofun
    · nofun
  · split
    · nofun
    · split
      · nofun
      · nofun

theorem kvlineValue_ne_bug : kvlineValue flags cp ≠ .error .bug := by
  unfold kvlineValue
  split
  · split
    · nofun
    · refine bind_ne_bug kvlineQuoted_ne_bug fun r => ?_
      dsimp only
      split
      · nofun
      · nofun
  · nofun

theorem kvlineItem_ne_bug : kvlineItem flags cp ≠ .error .bug := by
  unfold kvlineItem
  refine bind_ne_bug kvlineKey_ne_bug fun r => bind_ne_bug ?_ fun r => ?_
  · unfold kvlineVal
    split
    · nofun
    · exact kvlineValue_ne_bug
  · dsimp only
    split
    · nofun
    · nofun

/-- A word is taken from the text, and what ends it is not. -/
theorem length_dropWhile_word {p : UInt8 → Bool} (hne : cp ≠ [])
    (hstart : ∀ c ∈ cp.head?, p c = true) : (cp.dropWhile p).length < cp.length := by
  cases cp with
  | nil => exact absurd rfl hne
  | cons c cp =>
    rw [List.dropWhile_cons_of_pos (hstart c rfl)]
    exact Nat.lt_succ_of_le (length_dropWhile_le p cp)

theorem length_kvlineValue {val : Bytes} (h : kvlineValue flags cp = .ok (val, rest)) :
    rest.length ≤ cp.length
      ∧ (cp ≠ [] → (∀ c ∈ cp.head?, isBlank c = false) → rest.length < cp.length) := by
  unfold kvlineValue at h
  split at h
  · split at h
    · exact nomatch h
    · obtain ⟨⟨val', len, rest'⟩, hquoted, h⟩ := bind_eq_ok.mp h
      have hshorter : rest'.length < cp.length := by
        unfold kvlineQuoted at hquoted
        split at hquoted
        · split at hquoted
          · exact nomatch hquoted
          · next hread =>
            obtain ⟨rfl, rfl, rfl⟩ := Prod.mk.injEq .. ▸ Except.ok.inj hquoted
            exact length_unescapeString hread
        · split at hquoted
          · exact nomatch hquoted
          · next hread =>
            split at hquoted
            · exact nomatch hquoted
            · obtain ⟨rfl, rfl, rfl⟩ := Prod.mk.injEq .. ▸ Except.ok.inj hquoted
              exact length_decodeQstring hread
      dsimp only at h
      split at h
      · exact nomatch h
      · obtain ⟨rfl, rfl⟩ := Prod.mk.injEq .. ▸ Except.ok.inj h
        exact ⟨hshorter.le, fun _ _ => hshorter⟩
  · obtain ⟨rfl, rfl⟩ := Prod.mk.injEq .. ▸ Except.ok.inj h
    refine ⟨length_dropWhile_le _ cp, fun hne hstart => length_dropWhile_word hne fun c hc => ?_⟩
    rw [hstart c hc]
    rfl

/-- **One item** takes at least one byte. -/
theorem length_kvlineItem {line : ConfigLine} (hne : cp ≠ [])
    (hstart : ∀ c ∈ cp.head?, isBlank c = false) (h : kvlineItem flags cp = .ok (line, rest)) :
    rest.length < cp.length := by
  unfold kvlineItem at h
  obtain ⟨⟨key, cp', commit⟩, hkey, h⟩ := bind_eq_ok.mp h
  obtain ⟨⟨val, rest'⟩, hval, h⟩ := bind_eq_ok.mp h
  dsimp only at h hval
  split at h
  · exact nomatch h
  · next hempty =>
    obtain ⟨-, rfl⟩ := Prod.mk.injEq .. ▸ Except.ok.inj h
    have hvalue : commit = false → kvlineValue flags cp' = .ok (val, rest') := by
      rintro rfl
      exact hval
    unfold kvlineKey at hkey
    split at hkey
    · dsimp only at hkey
      split at hkey
      · next hequals =>
        obtain ⟨-, rfl, rfl⟩ := Prod.mk.injEq .. ▸ Except.ok.inj hkey
        have hle := (length_kvlineValue (hvalue rfl)).1
        have hdrop := length_dropWhile_le (fun c => !endsKey c) cp
        obtain ⟨text, htext⟩ := List.head?_eq_some_iff.mp hequals
        rw [htext] at hle hdrop
        simp only [List.drop_one, List.tail_cons, List.length_cons] at hle hdrop
        omega
      · split at hkey
        · obtain ⟨rfl, rfl, rfl⟩ := Prod.mk.injEq .. ▸ Except.ok.inj hkey
          obtain ⟨-, rfl⟩ := Prod.mk.injEq .. ▸ Except.ok.inj hval
          refine length_dropWhile_word hne fun c hc => ?_
          by_contra hends
          refine hempty (congrArg some ?_)
          obtain ⟨text, rfl⟩ := List.head?_eq_some_iff.mp hc
          exact List.takeWhile_cons_of_neg hends
        · split at hkey
          · exact nomatch hkey
          · obtain ⟨-, rfl, rfl⟩ := Prod.mk.injEq .. ▸ Except.ok.inj hkey
            exact (length_kvlineValue (hvalue rfl)).2 hne hstart
    · obtain ⟨-, rfl, rfl⟩ := Prod.mk.injEq .. ▸ Except.ok.inj hkey
      exact (length_kvlineValue (hvalue rfl)).2 hne hstart

theorem head_dropWhile_isBlank (cp : Bytes) :
    ∀ c ∈ (cp.dropWhile isBlank).head?, isBlank c = false := by
  intro c hc
  have := List.head?_dropWhile_not isBlank cp
  rw [Option.mem_def.mp hc] at this
  simpa using this

/-- **The loop ends**, and is never where it was at the last turn. -/
theorem kvlineLoop_ends : ∀ {fuel : ℕ} {cplast : Option ℕ} {cp : Bytes} {result : List ConfigLine},
    cp.length < fuel → (∀ n ∈ cplast, cp.length < n) →
    ∃ r, kvlineLoop flags fuel cplast cp result = some r ∧ r ≠ .error .bug
  | 0, _, _, _, hfuel, _ => absurd hfuel (Nat.not_lt_zero _)
  | fuel + 1, cplast, cp, result, hfuel, hlast => by
    have hlength := length_dropWhile_le isBlank cp
    rw [kvlineLoop]
    dsimp only
    split
    · exact ⟨_, rfl, nofun⟩
    · split
      · next hbug =>
        have := hlast _ hbug
        omega
      · split
        · exact ⟨_, rfl, nofun⟩
        · next hne =>
          split
          · next e herror =>
            refine ⟨_, rfl, fun h => kvlineItem_ne_bug (herror.trans ?_)⟩
            exact congrArg Except.error (Except.error.inj h)
          · next line rest hitem =>
            have hshorter := length_kvlineItem hne (head_dropWhile_isBlank cp) hitem
            refine kvlineLoop_ends (by omega) fun n hn => ?_
            obtain rfl := Option.some.inj hn
            exact hshorter

end Ends

/-- **Lines survive encoding**, where a key that is `NULL` comes back as an empty one; the values are C
strings, and so is the text. The loop of `kvline_parse` ends for every text, and never reaches its
`BUG`. -/
theorem kvlines_survive_encoding :
    (∀ (flags : KvFlags) (lines : List ConfigLine) (text : Bytes), flags.raw = false →
      (∀ line ∈ lines, 0 ∉ line.value) → kvlineEncode lines flags = .ok (some text) →
      0 ∉ text ∧ kvlineParse text flags = some (.ok (lines.map ConfigLine.withKey)))
    ∧ ∀ (flags : KvFlags) (text : Bytes) (fuel : ℕ), text.length < fuel →
      ∃ r, kvlineLoop flags fuel none text [] = some r ∧ r ≠ .error .bug := by
  refine ⟨fun flags lines text hraw hval h => ?_, fun flags text fuel hfuel =>
    kvlineLoop_ends hfuel nofun⟩
  unfold kvlineEncode at h
  obtain ⟨_, hqstring, h⟩ := bind_eq_ok.mp h
  obtain ⟨_, homit, h⟩ := bind_eq_ok.mp h
  obtain ⟨_, -, h⟩ := bind_eq_ok.mp h
  rw [torAssert_eq_ok] at hqstring homit
  split at h
  · next hcan =>
    obtain rfl := Option.some.inj (Except.ok.inj h)
    rw [intercalate_kvElement]
    have hstart : ((kvTail flags lines).drop 1).dropWhile isBlank = (kvTail flags lines).drop 1 := by
      cases lines with
      | nil => rfl
      | cons line lines =>
        unfold kvlineCanEncodeLines at hcan
        rw [List.all_cons, Bool.and_eq_true] at hcan
        obtain ⟨c, rest, helement, hblank⟩ := kvElement_starts hraw homit hcan.1
        unfold kvTail
        rw [List.flatMap_cons, helement]
        exact List.dropWhile_cons_of_neg (by rw [hblank]; exact Bool.false_ne_true)
    constructor
    · intro hzero
      obtain ⟨line, hline, hzero⟩ := List.mem_flatMap.mp (List.mem_of_mem_drop hzero)
      rcases List.mem_cons.mp hzero with hspace | hzero
      · exact absurd hspace (by decide)
      · exact zero_notMem_kvElement hraw (List.all_eq_true.mp hcan line hline) (hval line hline) hzero
    · have hback : kvlineCanEncodeLines (lines.map ConfigLine.withKey) flags = true := by
        unfold kvlineCanEncodeLines at hcan ⊢
        rw [List.all_map]
        exact (congrArg lines.all (funext canEncodeLine_withKey)).trans hcan
      have hloop : kvlineLoop flags (((kvTail flags lines).drop 1).length + 1) none
          ((kvTail flags lines).drop 1) [] = some (.ok ([] ++ lines.map ConfigLine.withKey)) :=
        kvlineLoop_lines hraw homit hcan hval hstart (Nat.lt_succ_self _) nofun
      unfold kvlineParse
      rw [if_neg (by rw [hraw]; tauto), hloop]
      dsimp only
      rw [List.nil_append, hback, if_neg (by simp)]
  · exact nomatch Except.ok.inj h

/-- An option as it is, one with bytes that are escaped, and one without a value. -/
def exampleLines : List ConfigLine :=
  [⟨some (cstring "k"), cstring "x=1"⟩, ⟨some (cstring "quoted"), [12, 34, 92, 200, 10]⟩,
    ⟨some (cstring "empty"), []⟩]

def exampleFlags : KvFlags :=
  { quoted := true, omitKeys := false, omitVals := true, quotedQstring := false, raw := false }

/-- They are encoded, and parsed again. -/
theorem kvlines_survive_encoding_three : ∃ text,
    kvlineEncode exampleLines exampleFlags = .ok (some text)
      ∧ kvlineParse text exampleFlags = some (.ok exampleLines) :=
  ⟨_, rfl, (kvlines_survive_encoding.1 exampleFlags exampleLines _ rfl (by decide) rfl).2⟩

/-- A key that is `NULL` does not come back as `NULL`. -/
theorem null_key_comes_back_empty : ¬ ∀ (flags : KvFlags) (lines : List ConfigLine) (text : Bytes),
    flags.raw = false → (∀ line ∈ lines, 0 ∉ line.value) →
    kvlineEncode lines flags = .ok (some text) → kvlineParse text flags = some (.ok lines) := by
  intro h
  have hback := h
    { quoted := false, omitKeys := true, omitVals := false, quotedQstring := false, raw := false }
    [⟨none, cstring "value"⟩] (cstring "value") rfl (by decide) rfl
  have hlines := List.cons.inj (Except.ok.inj (Option.some.inj hback))
  exact nomatch hlines.1

end Dittor.Tor.Kvline

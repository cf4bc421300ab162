import Mathlib
import Dittor.Lib.JavaText
import Dittor.Tor.Protover

/-!
# Protocol lists survive encoding (`protover.c`)

`encode_protocol_list` writes a mask as its runs of ones, one range each, and `parse_protocol_list`
puts them together again. Both shift words by what they find: `getLsbD_run` says that the first run
and what is left behind it are the word, and the parser's mask of a range is that run
(`getLsbD_bitmaskForRange`).

The test that protects `trailing_zeros` from a word of ones looks at the mask, which is not zero
there, in place of its complement. So the one mask that is not written is that of all versions
(`protocol_list_survives_iff`).
-/

namespace Dittor.Tor

open Dittor.Lib

/-! ## One range -/

theorem getLsbD_bitmaskForRange {low high i : ℕ} (hmax : high ≤ 63) :
    (bitmaskForRange low high).getLsbD i = decide (low ≤ i ∧ i ≤ high) := by
  unfold bitmaskForRange
  rw [BitVec.getLsbD_shiftLeft, BitVec.getLsbD_ushiftRight, BitVec.getLsbD_shiftLeft,
    BitVec.getLsbD_allOnes]
  rw [Bool.eq_iff_iff]
  simp only [Bool.and_eq_true, Bool.not_eq_true', decide_eq_true_eq, decide_eq_false_iff_not]
  omega

theorem isDigit_minus : isDigit (byte '-') = false := by decide

/-- **A range is read back.** -/
theorem parseVersionRange_rangeText {shift ones : ℕ} (hones : 0 < ones)
    (hmax : shift + ones ≤ 64) :
    parseVersionRange (rangeText shift ones) = some (shift, shift + ones - 1) := by
  unfold parseVersionRange rangeText maxProtocolVersion
  by_cases hone : ones = 1
  · have hread := @readDecimal_decimal shift [] (by simp)
    rw [List.append_nil] at hread
    rw [if_pos hone, hread]
    simp only
    rw [if_neg (by omega), hone, Nat.add_sub_cancel]
  · have hlow := @readDecimal_decimal shift (byte '-' :: decimal (shift + ones - 1))
      (by simp [isDigit_minus])
    have hhigh := @readDecimal_decimal (shift + ones - 1) [] (by simp)
    rw [List.append_nil] at hhigh
    have htext : decimal shift ++ cstring "-" ++ decimal (shift + ones - 1)
        = decimal shift ++ byte '-' :: decimal (shift + ones - 1) := by
      rw [List.append_assoc]
      rfl
    rw [if_neg hone, htext, hlow]
    simp only
    rw [if_neg (by omega), if_neg (by simp), hhigh]
    simp only
    rw [if_neg (by omega)]

theorem mem_rangeText {shift ones : ℕ} {b : UInt8} (h : b ∈ rangeText shift ones) :
    isDigit b = true ∨ b = byte '-' := by
  unfold rangeText at h
  split at h
  · exact .inl (isDigit_of_mem_decimal h)
  · rw [List.append_assoc, List.mem_append, List.mem_append] at h
    rcases h with h | h | h
    · exact .inl (isDigit_of_mem_decimal h)
    · exact .inr (List.mem_singleton.mp h)
    · exact .inl (isDigit_of_mem_decimal h)

theorem rangeText_ne_nil (shift ones : ℕ) : rangeText shift ones ≠ [] := by
  unfold rangeText
  split
  · exact decimal_ne_nil shift
  · simp [decimal_ne_nil]

/-! ## The ranges of a mask -/

/-- The parser's loop over the ranges. -/
def addRange (mask : BitVec 64) (range : Bytes) : Option (BitVec 64) := do
  let (low, high) ← parseVersionRange range
  some (mask ||| bitmaskForRange low high)

/-- Texts of ranges that the parser adds up to a mask. -/
structure Ranges (mask : BitVec 64) (pieces : List Bytes) : Prop where
  empty : pieces = [] ↔ mask = 0
  bytes : ∀ piece ∈ pieces, ∀ b ∈ piece, isDigit b = true ∨ b = byte '-'
  nonempty : ∀ piece ∈ pieces, piece ≠ []
  sum : ∀ acc, pieces.foldlM addRange acc = some (acc ||| mask)

theorem Ranges.nil : Ranges 0 [] where
  empty := ⟨fun _ => rfl, fun _ => rfl⟩
  bytes _ h := nomatch h
  nonempty _ h := nomatch h
  sum acc := by simp

/-- One range in front of others. -/
theorem Ranges.cons {shift ones : ℕ} {mask : BitVec 64} {pieces : List Bytes}
    (h : Ranges mask pieces) (hones : 0 < ones) (hmax : shift + ones ≤ 64) :
    Ranges (bitmaskForRange shift (shift + ones - 1) ||| mask)
      (rangeText shift ones :: pieces) where
  empty := by
    refine ⟨fun hnil => (nomatch hnil), fun hzero => ?_⟩
    have hbit := congrArg (fun x => x.getLsbD shift) hzero
    simp only [BitVec.getLsbD_or, BitVec.ofNat_eq_ofNat, BitVec.getLsbD_zero] at hbit
    rw [getLsbD_bitmaskForRange (by omega), decide_eq_true (by omega)] at hbit
    cases hbit
  bytes piece hpiece := by
    rcases List.mem_cons.mp hpiece with rfl | hpiece
    · exact fun b hb => mem_rangeText hb
    · exact h.bytes piece hpiece
  nonempty piece hpiece := by
    rcases List.mem_cons.mp hpiece with rfl | hpiece
    · exact rangeText_ne_nil shift ones
    · exact h.nonempty piece hpiece
  sum acc := by
    have hadd : addRange acc (rangeText shift ones)
        = some (acc ||| bitmaskForRange shift (shift + ones - 1)) := by
      unfold addRange
      rw [parseVersionRange_rangeText hones hmax]
      rfl
    rw [List.foldlM_cons, hadd]
    exact (h.sum _).trans (by rw [BitVec.or_assoc])

/-- The text of the ranges; only the first one has no comma in front. -/
def joinRanges (first : Bool) (pieces : List Bytes) : Bytes :=
  (if first || pieces.isEmpty then [] else cstring ",") ++ [byte ','].intercalate pieces

theorem joinRanges_cons (first : Bool) (piece : Bytes) (pieces : List Bytes) :
    joinRanges first (piece :: pieces)
      = (if first then [] else cstring ",") ++ piece ++ joinRanges false pieces := by
  unfold joinRanges
  cases pieces with
  | nil => simp
  | cons piece' pieces =>
    have hcomma : cstring "," = [byte ','] := by decide
    cases first <;> simp [List.intercalate_cons_cons, hcomma]

/-- A word with a zero among its bits has one above its lowest run of ones. -/
theorem lowestRun_exists {mask : BitVec 64} (hne : mask ≠ 0) (hall : mask ≠ BitVec.allOnes 64) :
    ∃ zeros ones, lowestBit mask = some zeros ∧ lowestBit (~~~(mask >>> zeros)) = some ones := by
  obtain ⟨zeros, hzeros⟩ := Option.ne_none_iff_exists'.mp (mt lowestBit_eq_none.mp hne)
  refine ⟨zeros, ?_⟩
  suffices h : lowestBit (~~~(mask >>> zeros)) ≠ none by
    obtain ⟨ones, hones⟩ := Option.ne_none_iff_exists'.mp h
    exact ⟨ones, hzeros, hones⟩
  intro hnone
  have hones : ∀ i < 64, mask.getLsbD (zeros + i) = true := fun i hi => by
    have hbit := congrArg (fun x => x.getLsbD i) (lowestBit_eq_none.mp hnone)
    simpa [hi] using hbit
  -- all bits are ones only if there was nothing to shift out
  have htop := hones 63 (by decide)
  have hzero : zeros = 0 := by
    by_contra hpos
    rw [BitVec.getLsbD_of_ge mask _ (by omega)] at htop
    cases htop
  refine hall (BitVec.eq_of_getLsbD_eq fun i hi => ?_)
  have hbit := hones i hi
  rw [hzero, Nat.zero_add] at hbit
  rw [hbit, BitVec.getLsbD_allOnes, decide_eq_true hi]

/-- **The loop**: what is left of the mask after `shift` bits is written as its ranges, if it is not
the word of ones. -/
theorem encodeRanges_spec : ∀ (rounds shift : ℕ) (mask : BitVec 64), 64 ≤ rounds + shift →
    (∀ i, 64 ≤ shift + i → mask.getLsbD i = false) → mask ≠ BitVec.allOnes 64 →
    ∃ pieces, Ranges (mask <<< shift) pieces
      ∧ ∀ first, encodeRanges rounds first shift mask = some (joinRanges first pieces) := by
  intro rounds
  induction rounds with
  | zero =>
    intro shift mask hrounds hhigh _
    have hzero : mask = 0 := BitVec.eq_of_getLsbD_eq fun i hi => by
      rw [hhigh i (by omega)]
      simp
    rw [hzero]
    exact ⟨[], by simpa using Ranges.nil, fun first => by cases first <;> rfl⟩
  | succ rounds ih =>
    intro shift mask hrounds hhigh hall
    by_cases hzero : mask = 0
    · rw [hzero]
      refine ⟨[], by simpa using Ranges.nil, fun first => ?_⟩
      rw [encodeRanges, if_pos rfl]
      cases first <;> rfl
    obtain ⟨zeros, ones, hzeros, hones⟩ := lowestRun_exists hzero hall
    have hpos := lowestBit_not_pos hzeros hones
    have hrun := getLsbD_run hzeros hones
    -- the run ends in the word
    have hfit : shift + zeros + ones ≤ 64 := by
      by_contra hover
      have hlast := hrun (zeros + ones - 1)
      rw [decide_eq_true (by omega), Bool.true_or, hhigh _ (by omega)] at hlast
      cases hlast
    have hset := (lowestBit_eq_some.mp hzeros).1
    have hmid : mask >>> zeros ≠ 0 := fun h => by
      have hbit := congrArg (fun x => x.getLsbD 0) h
      simp [hset] at hbit
    have hones64 : ones ≠ 64 := fun h => by
      obtain ⟨hstop, -⟩ := lowestBit_eq_some.mp hones
      rw [BitVec.getLsbD_of_ge _ ones (by omega)] at hstop
      cases hstop
    have hhigh' : ∀ i, 64 ≤ shift + zeros + ones + i
        → (mask >>> zeros >>> ones).getLsbD i = false := fun i hi => by
      rw [BitVec.getLsbD_ushiftRight, BitVec.getLsbD_ushiftRight, hhigh _ (by omega)]
    have hall' : mask >>> zeros >>> ones ≠ BitVec.allOnes 64 := fun h => by
      have htop := hhigh' 63 (by omega)
      rw [h, BitVec.getLsbD_allOnes] at htop
      exact absurd htop (by decide)
    obtain ⟨pieces, hranges, htext⟩ := ih (shift + zeros + ones) (mask >>> zeros >>> ones)
      (by omega) hhigh' hall'
    refine ⟨rangeText (shift + zeros) ones :: pieces, ?_, fun first => ?_⟩
    · have hsplit : mask <<< shift
          = bitmaskForRange (shift + zeros) (shift + zeros + ones - 1)
            ||| (mask >>> zeros >>> ones) <<< (shift + zeros + ones) := by
        refine BitVec.eq_of_getLsbD_eq fun i hi => ?_
        rw [BitVec.getLsbD_or, getLsbD_bitmaskForRange (by omega),
          BitVec.getLsbD_shiftLeft, BitVec.getLsbD_shiftLeft, hrun (i - shift)]
        have hindex : i - shift - (zeros + ones) = i - (shift + zeros + ones) := by omega
        rw [hindex, Bool.eq_iff_iff]
        simp only [Bool.and_eq_true, Bool.or_eq_true, Bool.not_eq_true', decide_eq_true_eq,
          decide_eq_false_iff_not]
        constructor
        · rintro ⟨⟨-, hshift⟩, hlow | ⟨hge, hbit⟩⟩
          · exact .inl (by omega)
          · exact .inr ⟨⟨hi, by omega⟩, hbit⟩
        · rintro (hlow | ⟨⟨-, hge⟩, hbit⟩)
          · exact ⟨⟨hi, by omega⟩, .inl (by omega)⟩
          · exact ⟨⟨hi, by omega⟩, .inr ⟨by omega, hbit⟩⟩
      rw [hsplit]
      exact hranges.cons hpos hfit
    · rw [encodeRanges, if_neg hzero]
      simp only [trailingZeros, hzeros, hones, htext, if_neg hmid, if_neg hones64,
        Option.bind_eq_bind, Option.bind_some]
      rw [joinRanges_cons]

theorem encodeRanges_allOnes : encodeRanges 64 true 0 (BitVec.allOnes 64) = none := by
  decide

/-! ## Entries and lists -/

/-- A name that the parser accepts. -/
structure LegalProtoName (name : Bytes) : Prop where
  nonempty : name ≠ []
  length : name.length ≤ maxProtocolNameLength
  keyword : isValidKeyword name = true

theorem LegalProtoName.mem {name : Bytes} (h : LegalProtoName name) {b : UInt8} (hb : b ∈ name) :
    b ≠ byte '=' ∧ b ≠ byte ' ' := by
  have hkeyword := List.all_eq_true.mp h.keyword b hb
  constructor
  · rintro rfl
    exact absurd hkeyword (by decide)
  · rintro rfl
    exact absurd hkeyword (by decide)

theorem Ranges.parse {mask : BitVec 64} {pieces : List Bytes} (h : Ranges mask pieces) :
    parseRanges (joinRanges true pieces) = some mask := by
  have htext : joinRanges true pieces = [byte ','].intercalate pieces := rfl
  unfold parseRanges
  cases pieces with
  | nil =>
    rw [h.empty.mp rfl]
    rfl
  | cons piece pieces =>
    have hne : [byte ','].intercalate (piece :: pieces) ≠ [] := by
      have hpiece := h.nonempty piece List.mem_cons_self
      cases pieces with
      | nil => simpa using hpiece
      | cons _ _ => simp [List.intercalate_cons_cons]
    have hcomma : ∀ p ∈ piece :: pieces, byte ',' ∉ p := fun p hp hmem => by
      rcases h.bytes p hp _ hmem with hdigit | hminus
      · exact absurd hdigit (by decide)
      · exact absurd hminus (by decide)
    rw [htext, if_neg hne, List.splitOn_intercalate _ hcomma (List.cons_ne_nil _ _)]
    have hsum := h.sum 0
    rw [BitVec.ofNat_eq_ofNat, BitVec.zero_or] at hsum
    exact hsum

theorem Ranges.mem_join {mask : BitVec 64} {pieces : List Bytes} (h : Ranges mask pieces)
    {b : UInt8} (hb : b ∈ joinRanges true pieces) : b ≠ byte ' ' := by
  rintro rfl
  rcases mem_intercalate hb with hcomma | ⟨piece, hpiece, hmem⟩
  · exact absurd hcomma (by decide)
  · rcases h.bytes piece hpiece _ hmem with hdigit | hminus
    · exact absurd hdigit (by decide)
    · exact absurd hminus (by decide)

/-- A text that the parser takes for the entry. -/
structure EntryText (entry : ProtoEntry) (text : Bytes) : Prop where
  nonempty : text ≠ []
  blank : ∀ b ∈ text, b ≠ byte ' '
  parse : parseSingleEntry text = some entry

theorem protoEntryEncode_spec {entry : ProtoEntry} (hname : LegalProtoName entry.name)
    (hmask : entry.bitmask ≠ BitVec.allOnes 64) :
    ∃ text, protoEntryEncode entry = some text ∧ EntryText entry text := by
  obtain ⟨pieces, hranges, hencode⟩ := encodeRanges_spec 64 0 entry.bitmask (by omega)
    (fun i hi => BitVec.getLsbD_of_ge _ _ (by omega)) hmask
  rw [BitVec.shiftLeft_zero] at hranges
  refine ⟨entry.name ++ byte '=' :: joinRanges true pieces, ?_, ?_, ?_, ?_⟩
  · rw [protoEntryEncode, hencode]
    rfl
  · simp
  · intro b hb
    rcases List.mem_append.mp hb with hb | hb
    · exact (hname.mem hb).2
    rcases List.mem_cons.mp hb with rfl | hb
    · decide
    · exact hranges.mem_join hb
  · have hall : ∀ b ∈ entry.name, decide (b ≠ byte '=') = true := fun b hb =>
      decide_eq_true (hname.mem hb).1
    unfold parseSingleEntry
    rw [List.dropWhile_append_of_pos hall, List.takeWhile_append_of_pos hall,
      List.dropWhile_cons_of_neg (by simp), List.takeWhile_cons_of_neg (by simp), List.append_nil]
    simp only
    rw [if_neg, hranges.parse]
    · rfl
    · rintro (hempty | hlong | hkeyword)
      · exact hname.nonempty hempty
      · exact absurd hlong (not_lt.mpr hname.length)
      · rw [hname.keyword] at hkeyword
        cases hkeyword

theorem protoEntryEncode_allOnes {entry : ProtoEntry} (h : entry.bitmask = BitVec.allOnes 64) :
    protoEntryEncode entry = none := by
  rw [protoEntryEncode, h, encodeRanges_allOnes]
  rfl

section Lists

variable {entry : ProtoEntry} {text more : Bytes}

theorem parseProtocolList_last (h : EntryText entry text) :
    parseProtocolList text = some [entry] := by
  have hall : ∀ b ∈ text, decide (b ≠ byte ' ') = true := fun b hb =>
    decide_eq_true (h.blank b hb)
  rw [parseProtocolList, if_neg h.nonempty, List.takeWhile_eq_self_iff.mpr hall, h.parse]
  split
  · rfl
  · rename_i hdrop
    rw [List.dropWhile_eq_nil_iff.mpr hall] at hdrop
    cases hdrop

theorem parseProtocolList_cons (h : EntryText entry text) :
    parseProtocolList (text ++ byte ' ' :: more)
      = (parseProtocolList (more.dropWhile fun b => b = byte ' ')).map fun rest =>
        entry :: rest := by
  have hall : ∀ b ∈ text, decide (b ≠ byte ' ') = true := fun b hb =>
    decide_eq_true (h.blank b hb)
  have htake : (text ++ byte ' ' :: more).takeWhile (fun b => decide (b ≠ byte ' ')) = text := by
    rw [List.takeWhile_append_of_pos hall, List.takeWhile_cons_of_neg (by simp), List.append_nil]
  have hdrop : (text ++ byte ' ' :: more).dropWhile (fun b => decide (b ≠ byte ' '))
      = byte ' ' :: more := by
    rw [List.dropWhile_append_of_pos hall, List.dropWhile_cons_of_neg (by simp)]
  rw [parseProtocolList, if_neg (by simp), htake, h.parse]
  split
  · rename_i hnil
    rw [hdrop] at hnil
    cases hnil
  · rename_i hrest
    rw [hdrop] at hrest
    cases hrest
    simp only [Option.bind_eq_bind, Option.bind_some]
    cases parseProtocolList (more.dropWhile fun b => decide (b = byte ' ')) <;> rfl

/-- **The list is read back** from the texts of its entries. -/
theorem parseProtocolList_intercalate {sl : List ProtoEntry} {texts : List Bytes}
    (h : List.Forall₂ EntryText sl texts) :
    parseProtocolList ([byte ' '].intercalate texts) = some sl := by
  induction h with
  | nil =>
    rw [List.intercalate_nil, parseProtocolList]
    rfl
  | @cons entry text sl texts hentry hrest ih =>
    cases hrest with
    | nil =>
      rw [List.intercalate_singleton]
      exact parseProtocolList_last hentry
    | @cons entry' text' sl texts hentry' hrest =>
      rw [List.intercalate_cons_cons, List.append_assoc, List.singleton_append,
        parseProtocolList_cons hentry]
      -- the next entry does not start with a blank
      have hstart : ([byte ' '].intercalate (text' :: texts)).dropWhile
          (fun b => decide (b = byte ' ')) = [byte ' '].intercalate (text' :: texts) := by
        obtain ⟨b, front, rfl⟩ := List.exists_cons_of_ne_nil hentry'.nonempty
        have hb := hentry'.blank b List.mem_cons_self
        cases texts with
        | nil =>
          rw [List.intercalate_singleton, List.dropWhile_cons_of_neg (by simpa using hb)]
        | cons text'' texts =>
          rw [List.intercalate_cons_cons, List.append_assoc, List.cons_append,
            List.dropWhile_cons_of_neg (by simpa using hb)]
      rw [hstart, ih]
      rfl

theorem encodeProtocolList_spec : ∀ {sl : List ProtoEntry},
    (∀ entry ∈ sl, LegalProtoName entry.name) →
    (∀ entry ∈ sl, entry.bitmask ≠ BitVec.allOnes 64) →
    ∃ texts, sl.mapM protoEntryEncode = some texts ∧ List.Forall₂ EntryText sl texts
  | [], _, _ => ⟨[], rfl, .nil⟩
  | entry :: sl, hnames, hmasks => by
    rw [List.forall_mem_cons] at hnames hmasks
    obtain ⟨text, htext, hentry⟩ := protoEntryEncode_spec hnames.1 hmasks.1
    obtain ⟨texts, htexts, hrest⟩ := encodeProtocolList_spec hnames.2 hmasks.2
    refine ⟨text :: texts, ?_, .cons hentry hrest⟩
    rw [List.mapM_cons, htext, htexts]
    rfl

theorem encodeProtocolList_eq_none : ∀ {sl : List ProtoEntry},
    (∃ entry ∈ sl, entry.bitmask = BitVec.allOnes 64) → sl.mapM protoEntryEncode = none
  | [], h => by simp at h
  | entry :: sl, h => by
    rw [List.exists_mem_cons_iff] at h
    rw [List.mapM_cons]
    rcases h with h | h
    · rw [protoEntryEncode_allOnes h]
      rfl
    · rw [encodeProtocolList_eq_none h]
      cases protoEntryEncode entry <;> rfl

end Lists

/-! ## What is parsed -/

theorem parseSingleEntry_legal {s : Bytes} {entry : ProtoEntry}
    (h : parseSingleEntry s = some entry) : LegalProtoName entry.name := by
  unfold parseSingleEntry at h
  split at h
  · cases h
  · simp only at h
    split at h
    · cases h
    · rename_i hlegal
      obtain ⟨mask, -, rfl⟩ := Option.map_eq_some_iff.mp h
      rw [not_or, not_or, not_lt, Bool.not_eq_false] at hlegal
      exact ⟨hlegal.1, hlegal.2.1, hlegal.2.2⟩

theorem parseProtocolList_legal {s : Bytes} : ∀ {sl : List ProtoEntry},
    parseProtocolList s = some sl → ∀ entry ∈ sl, LegalProtoName entry.name := by
  induction s using parseProtocolList.induct with
  | case1 =>
    intro sl h
    rw [parseProtocolList, if_pos rfl] at h
    cases h
    exact fun entry hentry => (nomatch hentry)
  | case2 s hs ih =>
    intro sl h
    rw [parseProtocolList, if_neg hs, Option.bind_eq_bind, Option.bind_eq_some_iff] at h
    obtain ⟨first, hfirst, h⟩ := h
    have hlegal := parseSingleEntry_legal hfirst
    simp only at h
    split at h
    · cases h
      exact List.forall_mem_singleton.mpr hlegal
    · rename_i hdrop
      obtain ⟨rest, hrest, h⟩ := Option.bind_eq_some_iff.mp h
      cases h
      exact List.forall_mem_cons.mpr ⟨hlegal, ih _ _ hdrop hrest⟩

/-- **Protocol lists survive encoding** exactly if no entry lists all versions. -/
theorem protocol_list_survives_iff (sl : List ProtoEntry) :
    (∀ s, parseProtocolList s = some sl → ∀ entry ∈ sl, LegalProtoName entry.name)
      ∧ ((∀ entry ∈ sl, LegalProtoName entry.name) →
        ((∃ text, encodeProtocolList sl = some text ∧ parseProtocolList text = some sl)
          ↔ ∀ entry ∈ sl, entry.bitmask ≠ BitVec.allOnes 64)) := by
  refine ⟨fun s h => parseProtocolList_legal h, fun hnames => ⟨?_, fun hmasks => ?_⟩⟩
  · rintro ⟨text, hencode, -⟩ entry hentry hall
    rw [encodeProtocolList, encodeProtocolList_eq_none ⟨entry, hentry, hall⟩] at hencode
    cases hencode
  · obtain ⟨texts, htexts, hentries⟩ := encodeProtocolList_spec hnames hmasks
    refine ⟨_, ?_, parseProtocolList_intercalate hentries⟩
    rw [encodeProtocolList, htexts]
    rfl

theorem protocol_list_survives_link :
    LegalProtoName (cstring "Link")
      ∧ ∃ text, encodeProtocolList [⟨cstring "Link", 0b111000#64⟩] = some text
        ∧ parseProtocolList text = some [⟨cstring "Link", 0b111000#64⟩] := by
  have hlegal : LegalProtoName (cstring "Link") := ⟨by decide, by decide, by decide⟩
  refine ⟨hlegal, ((protocol_list_survives_iff _).2 ?_).mpr ?_⟩
  · simpa using hlegal
  · rw [List.forall_mem_singleton]
    decide

/-- A list that the parser accepts and that is not written. -/
theorem all_versions_not_encoded :
    parseProtocolList (cstring "A=0-63") = some [⟨cstring "A", BitVec.allOnes 64⟩]
      ∧ encodeProtocolList [⟨cstring "A", BitVec.allOnes 64⟩] = none :=
  ⟨by decide +kernel, by decide +kernel⟩

end Dittor.Tor

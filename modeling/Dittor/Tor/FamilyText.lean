import Mathlib
import Dittor.Tor.Enforcement
import Dittor.Tor.NodeFamily

/-!
# The canonical form of a family (`nodefamily.c`)

A family that is formatted and parsed again is the same family, as every entry is written as a text
that is read as this entry (`IsEntry.text`). So the canonical form of a text is made of the set of its
entries and of what is not recognized in it, whose order sorting takes away
(`nodefamilyCanonicalize_eq`); canonicalizing it once more finds the same two
(`family_lists_canonical`).
-/

namespace Dittor.Tor

open Dittor.Lib

/-! ## Nicknames -/

theorem isAlnum_torTolower (b : UInt8) : isAlnum (torTolower b) = isAlnum b := by
  revert b
  decide +kernel

theorem isAlnum_facts {b : UInt8} (h : isAlnum b = true) : isSpace b = false ∧ b ≠ 0 := by
  revert b
  decide +kernel

theorem length_torStrlower (s : Bytes) : (torStrlower s).length = s.length := List.length_map _

theorem isLegalNickname_torStrlower (s : Bytes) :
    isLegalNickname (torStrlower s) = isLegalNickname s := by
  unfold isLegalNickname
  rw [length_torStrlower, torStrlower, List.all_map]
  have hall : (isAlnum ∘ torTolower) = isAlnum := funext isAlnum_torTolower
  rw [hall]
  cases s <;> rfl

theorem nicknameMember_torStrlower (s : Bytes) :
    nicknameMember (torStrlower s) = nicknameMember s := by
  rw [nicknameMember, torStrlower_idem, length_torStrlower, nicknameMember]

theorem isLegalNickname_iff {s : Bytes} :
    isLegalNickname s = true ↔ s ≠ [] ∧ s.length ≤ 19 ∧ ∀ b ∈ s, isAlnum b = true := by
  unfold isLegalNickname
  rw [Bool.and_eq_true, Bool.and_eq_true, decide_eq_true_eq, decide_eq_true_eq, List.all_eq_true,
    and_assoc]

theorem formatMember_nickname {s : Bytes} (h : isLegalNickname s = true) :
    formatMember (nicknameMember s) = some (torStrlower s) := by
  rw [← isLegalNickname_torStrlower] at h
  obtain ⟨-, -, halnum⟩ := isLegalNickname_iff.mp h
  have hall : ∀ b ∈ torStrlower s, decide (b ≠ 0) = true := fun b hb =>
    decide_eq_true (isAlnum_facts (halnum b hb)).2
  have hzeros : (List.replicate (20 - s.length) (0 : UInt8)).takeWhile
      (fun b => decide (b ≠ 0)) = [] := by
    cases 20 - s.length with
    | zero => rfl
    | succ n => rfl
  rw [nicknameMember, formatMember]
  simp only [if_true]
  rw [List.takeWhile_append_of_pos hall, hzeros, List.append_nil]

/-! ## Digests -/

/-- The digits of a digest. -/
def hexPart (s : Bytes) : Bytes := (dropDollar s).take hexDigestLen

theorem length_dropDollar_le (s : Bytes) : (dropDollar s).length ≤ s.length := by
  unfold dropDollar
  split
  · rw [List.length_tail]
    omega
  · exact le_rfl

/-- Pairs of digits are decoded. -/
theorem base16Decode_of_digits : ∀ {n : ℕ} {hex : Bytes}, hex.length = 2 * n →
    (∀ b ∈ hex, isXDigit b = true) → ∃ digest, base16Decode hex = some digest ∧ digest.length = n
  | 0, hex, hlen, _ => by
    rw [List.length_eq_zero_iff.mp hlen]
    exact ⟨[], rfl, rfl⟩
  | n + 1, [], hlen, _ => by simp at hlen
  | n + 1, [_], hlen, _ => by simp at hlen; omega
  | n + 1, a :: b :: hex, hlen, hdigits => by
    obtain ⟨v1, h1⟩ := Option.isSome_iff_exists.mp (hdigits a List.mem_cons_self)
    obtain ⟨v2, h2⟩ := Option.isSome_iff_exists.mp
      (hdigits b (List.mem_cons_of_mem _ List.mem_cons_self))
    simp only [List.length_cons] at hlen
    obtain ⟨digest, hdigest, hn⟩ := @base16Decode_of_digits n hex (by omega)
      fun x hx => hdigits x (List.mem_cons_of_mem _ (List.mem_cons_of_mem _ hx))
    refine ⟨UInt8.ofNat (v1 * 16 + v2) :: digest, ?_, by rw [List.length_cons, hn]⟩
    rw [base16Decode, h1, h2]
    simp only [hdigest, Option.map_some]

theorem hexDecodeDigit_torTolower (b : UInt8) :
    hexDecodeDigit (torTolower b) = hexDecodeDigit b := by
  revert b
  decide +kernel

theorem base16Decode_torStrlower : ∀ hex : Bytes,
    base16Decode (torStrlower hex) = base16Decode hex
  | [] => rfl
  | [_] => rfl
  | a :: b :: hex => by
    have htext : torStrlower (a :: b :: hex) = torTolower a :: torTolower b :: torStrlower hex := rfl
    rw [htext, base16Decode, base16Decode, hexDecodeDigit_torTolower, hexDecodeDigit_torTolower,
      base16Decode_torStrlower hex]

/-- **A legal digest is decoded**, from its digits alone. -/
theorem isLegalHexdigest_spec {s : Bytes} (h : isLegalHexdigest s = true) :
    isLegalNickname s = false ∧ ∃ digest, base16Decode (hexPart s) = some digest
      ∧ digest.length = 20 ∧ hexDigestNicknameDecode s = some digest := by
  unfold isLegalHexdigest at h
  simp only at h
  split at h
  · cases h
  rename_i hname
  rw [Bool.and_eq_true, decide_eq_true_eq, decide_eq_true_eq] at h
  obtain ⟨hlong, hdigits⟩ := h
  have hnick : isLegalNickname s = false := by
    rw [Bool.eq_false_iff]
    intro hlegal
    have hshort := (isLegalNickname_iff.mp hlegal).2.1
    have hle := length_dropDollar_le s
    rw [hexDigestLen] at hlong
    omega
  have hfront : (dropDollar s).takeWhile isXDigit = hexPart s := by
    have htake := List.prefix_iff_eq_take.mp (List.takeWhile_prefix (l := dropDollar s) isXDigit)
    rw [hdigits] at htake
    exact htake
  have hlen : (hexPart s).length = 2 * 20 := by
    rw [← hfront, hdigits]
    rfl
  obtain ⟨digest, hdecode, hdigest⟩ := base16Decode_of_digits hlen fun b hb => by
    rw [← hfront] at hb
    exact List.mem_takeWhile_imp hb
  refine ⟨hnick, digest, hdecode, hdigest, ?_⟩
  unfold hexDigestNicknameDecode
  simp only
  rw [if_neg (by omega), if_pos]
  · show (base16Decode (hexPart s)).filter _ = some digest
    rw [hdecode]
    simp [hdigest]
  · rcases Nat.lt_or_eq_of_le hlong with hlt | heq
    · rw [decide_eq_true hlt, Bool.true_and, Bool.not_eq_true', Bool.not_eq_false,
        Bool.and_eq_true] at hname
      obtain ⟨hqualifier, hlegal⟩ := hname
      have hshort := (isLegalNickname_iff.mp hlegal).2.1
      rw [List.length_drop] at hshort
      rw [decide_eq_true hlt, hqualifier, decide_eq_true (by omega)]
      rfl
    · rw [← heq]
      simp

theorem memberOf_hexdigest {s : Bytes} (h : isLegalHexdigest s = true) :
    ∃ digest, base16Decode (hexPart s) = some digest ∧ digest.length = 20
      ∧ memberOf s = some (rsaIdMember digest) := by
  obtain ⟨hnick, digest, hdecode, hlen, hread⟩ := isLegalHexdigest_spec h
  refine ⟨digest, hdecode, hlen, ?_⟩
  rw [memberOf, hnick, h, hread]
  rfl

theorem isXDigit_base16 {src : Bytes} {b : UInt8} (h : b ∈ base16Encode src) :
    isXDigit b = true ∧ torToupper b = b ∧ isSpace b = false := by
  have hall : ∀ n < 16, isXDigit (base16Digit n) = true
      ∧ torToupper (base16Digit n) = base16Digit n ∧ isSpace (base16Digit n) = false := by
    decide
  obtain ⟨x, -, hb⟩ := List.mem_flatMap.mp h
  have hx : x.toNat < 256 := x.toNat_lt
  rcases List.mem_cons.mp hb with rfl | hb
  · exact hall _ (by omega)
  · rw [List.mem_singleton.mp hb]
    exact hall _ (by omega)

theorem formatMember_rsaId (digest : Bytes) :
    formatMember (rsaIdMember digest) = some (byte '$' :: base16Encode digest) := by
  have hupper : torStrupper (base16Encode digest) = base16Encode digest :=
    (List.map_congr_left fun b hb => (isXDigit_base16 hb).2.1).trans (List.map_id _)
  rw [rsaIdMember, formatMember, if_neg (by decide), if_pos rfl, hupper]

theorem isLegalHexdigest_base16 {digest : Bytes} (h : digest.length = 20) :
    isLegalHexdigest (byte '$' :: base16Encode digest) = true
      ∧ hexPart (byte '$' :: base16Encode digest) = base16Encode digest := by
  have hlen : (base16Encode digest).length = 40 := by rw [length_base16Encode, h]
  have hdrop : dropDollar (byte '$' :: base16Encode digest) = base16Encode digest := rfl
  have hdigits : (base16Encode digest).takeWhile isXDigit = base16Encode digest :=
    List.takeWhile_eq_self_iff.mpr fun b hb => (isXDigit_base16 hb).1
  unfold isLegalHexdigest hexPart
  simp only [hdrop, hlen, hexDigestLen, hdigits]
  refine ⟨by simp, ?_⟩
  rw [← hlen, List.take_length]

/-! ## Members -/

/-- A text of the family: its entry, and that its bytes are not space. -/
structure MemberText (m text : Bytes) : Prop where
  format : formatMember m = some text
  read : memberOf text = some m
  nonempty : text ≠ []
  graphic : ∀ b ∈ text, isSpace b = false

theorem memberOf_nickname {s : Bytes} (h : isLegalNickname s = true) :
    memberOf s = some (nicknameMember s) := by
  rw [memberOf, if_pos h]

theorem rsaId_memberText {digest : Bytes} (h : digest.length = 20) :
    MemberText (rsaIdMember digest) (byte '$' :: base16Encode digest) := by
  obtain ⟨hlegal, hdigits⟩ := isLegalHexdigest_base16 h
  obtain ⟨digest', hdecode, -, hread⟩ := memberOf_hexdigest hlegal
  rw [hdigits, base16Decode_encode, Option.some.injEq] at hdecode
  refine ⟨formatMember_rsaId digest, hdecode ▸ hread, List.cons_ne_nil _ _, fun b hb => ?_⟩
  rcases List.mem_cons.mp hb with rfl | hb
  · decide
  · exact (isXDigit_base16 hb).2.2

/-- **What is read is written as a text that is read again.** -/
theorem exists_memberText {cp m : Bytes} (h : memberOf cp = some m) : ∃ text, MemberText m text := by
  unfold memberOf at h
  split at h
  · rename_i hlegal
    cases h
    have hlower := isLegalNickname_torStrlower cp
    rw [hlegal] at hlower
    obtain ⟨hne, -, halnum⟩ := isLegalNickname_iff.mp hlower
    refine ⟨torStrlower cp, formatMember_nickname hlegal, ?_, hne, fun b hb =>
      (isAlnum_facts (halnum b hb)).1⟩
    rw [memberOf_nickname hlower, nicknameMember_torStrlower]
  · split at h
    · rename_i hhex
      obtain ⟨-, digest, -, hlen, hread⟩ := isLegalHexdigest_spec hhex
      rw [hread] at h
      cases h
      exact ⟨_, rsaId_memberText hlen⟩
    · cases h

theorem memberOf_eq_none {cp : Bytes} : memberOf cp = none ↔ isUnrecognized cp = true := by
  unfold isUnrecognized
  cases hnick : isLegalNickname cp with
  | true =>
    rw [memberOf_nickname hnick]
    simp
  | false =>
    cases hhex : isLegalHexdigest cp with
    | true =>
      obtain ⟨digest, -, -, hread⟩ := memberOf_hexdigest hhex
      rw [hread]
      simp
    | false =>
      rw [memberOf, hnick, hhex]
      simp

/-- Two spellings of one member: letter case does not matter, and for a digest neither does what is
around its digits. -/
inductive SameMember (a b : Bytes) : Prop where
  | nickname : isLegalNickname a = true → isLegalNickname b = true →
      torStrlower a = torStrlower b → SameMember a b
  | hexdigest : isLegalHexdigest a = true → isLegalHexdigest b = true →
      torStrlower (hexPart a) = torStrlower (hexPart b) → SameMember a b

/-- **Spellings of one member have one entry.** -/
theorem SameMember.memberOf_eq {a b : Bytes} (h : SameMember a b) : memberOf a = memberOf b := by
  cases h with
  | nickname ha hb hsame =>
    rw [memberOf_nickname ha, memberOf_nickname hb, ← nicknameMember_torStrlower a, hsame,
      nicknameMember_torStrlower]
  | hexdigest ha hb hsame =>
    obtain ⟨da, hda, -, hreada⟩ := memberOf_hexdigest ha
    obtain ⟨db, hdb, -, hreadb⟩ := memberOf_hexdigest hb
    rw [← base16Decode_torStrlower, hsame, base16Decode_torStrlower, hdb, Option.some.injEq] at hda
    rw [hreada, hreadb, hda]

/-! ## Families and texts -/

section Families

variable {Q : Qsort} {theNodeFamilies : List NodeFamily} {s t : Bytes} {rsaIdSelf : Option Digest20}
  {family : NodeFamily} {ws : List Bytes}

/-- What `smartlist_split_string` yields. -/
abbrev IsMemberWord (w : Bytes) : Prop := IsWord isSpace (fun b => b = byte '\t' || b = byte ' ') w

theorem splitMembers_join (h : ∀ w ∈ ws, IsMemberWord w) :
    splitMembers ([byte ' '].intercalate ws) = ws :=
  wordsBy_intercalate (by decide) h

theorem MemberText.isWord {m text : Bytes} (h : MemberText m text) : IsMemberWord text where
  nonempty := h.nonempty
  sep b hb := by
    have hspace := h.graphic b hb
    rw [Bool.eq_false_iff]
    intro hsep
    rw [Bool.or_eq_true, decide_eq_true_eq, decide_eq_true_eq] at hsep
    rcases hsep with rfl | rfl
    · exact absurd hspace (by decide)
    · exact absurd hspace (by decide)
  first b hb := h.graphic b (List.mem_of_mem_head? hb)
  last b hb := h.graphic b (List.mem_of_mem_getLast? hb)

/-- What `nodefamily_parse` returns: a strictly sorted list of these entries. -/
structure Parsed (members : List Bytes) (rsaIdSelf : Option Digest20) (family : NodeFamily) :
    Prop where
  sorted : family.members.Pairwise MemberBefore
  entries : ∀ m, m ∈ family.members ↔ IsEntry members rsaIdSelf m

/-- There is one such list. -/
theorem Parsed.unique {members members' : List Bytes} {rsaIdSelf' : Option Digest20}
    {family' : NodeFamily} (h : Parsed members rsaIdSelf family)
    (h' : Parsed members' rsaIdSelf' family')
    (hsame : ∀ m, IsEntry members rsaIdSelf m ↔ IsEntry members' rsaIdSelf' m) :
    family = family' := by
  have hmembers := h.sorted.eq_of_mem_iff h'.sorted fun m =>
    (h.entries m).trans ((hsame m).trans (h'.entries m).symm)
  cases family
  cases family'
  exact congrArg NodeFamily.mk hmembers

theorem nodefamilyParse_spec (Q : Qsort) (theNodeFamilies : List NodeFamily) (s : Bytes)
    (rsaIdSelf : Option Digest20) :
    ∃ family, nodefamilyParse Q theNodeFamilies s rsaIdSelf false = some family
      ∧ Parsed (splitMembers s) rsaIdSelf family := by
  obtain ⟨family, map', hfrom, hsorted, hentries⟩ :=
    @nodefamilyFromMembers_spec Q theNodeFamilies (splitMembers s) rsaIdSelf
  refine ⟨family, ?_, hsorted, hentries⟩
  rw [nodefamilyParse, hfrom]
  rfl

/-- The texts of a family. -/
def memberTexts (family : NodeFamily) : List Bytes := family.members.filterMap formatMember

theorem Parsed.texts {members : List Bytes} (h : Parsed members rsaIdSelf family) :
    (∀ m ∈ family.members, ∃ text ∈ memberTexts family, MemberText m text)
      ∧ ∀ text ∈ memberTexts family, ∃ m ∈ family.members, MemberText m text := by
  have hall : ∀ m ∈ family.members, ∃ text, MemberText m text := by
    intro m hm
    rcases (h.entries m).mp hm with ⟨cp, -, hread⟩ | ⟨id, -, rfl⟩
    · exact exists_memberText hread
    · exact ⟨_, rsaId_memberText id.property⟩
  constructor
  · intro m hm
    obtain ⟨text, htext⟩ := hall m hm
    exact ⟨text, List.mem_filterMap.mpr ⟨m, hm, htext.format⟩, htext⟩
  · intro text htext
    obtain ⟨m, hm, hformat⟩ := List.mem_filterMap.mp htext
    obtain ⟨text', htext'⟩ := hall m hm
    rw [htext'.format, Option.some.injEq] at hformat
    exact ⟨m, hm, hformat ▸ htext'⟩

/-- The texts are read as the family. -/
theorem Parsed.isEntry_texts {members : List Bytes} (h : Parsed members rsaIdSelf family) (m : Bytes) :
    (∃ cp ∈ memberTexts family, memberOf cp = some m) ↔ m ∈ family.members := by
  obtain ⟨hwritten, hread⟩ := h.texts
  constructor
  · rintro ⟨cp, hcp, hmember⟩
    obtain ⟨m', hm', htext⟩ := hread cp hcp
    rw [htext.read, Option.some.injEq] at hmember
    exact hmember ▸ hm'
  · intro hm
    obtain ⟨text, hmem, htext⟩ := hwritten m hm
    exact ⟨text, hmem, htext.read⟩

theorem Parsed.split_format {members : List Bytes} (h : Parsed members rsaIdSelf family) :
    splitMembers (nodefamilyFormat (some family)) = memberTexts family :=
  splitMembers_join fun text htext =>
    let ⟨_, _, hmember⟩ := h.texts.2 text htext
    hmember.isWord

/-- **A family that is formatted and parsed again is the same.** -/
theorem Parsed.parse_format {members : List Bytes} (h : Parsed members rsaIdSelf family) :
    nodefamilyParse Q theNodeFamilies (nodefamilyFormat (some family)) none false = some family := by
  obtain ⟨family', hparse, hparsed⟩ :=
    nodefamilyParse_spec Q theNodeFamilies (nodefamilyFormat (some family)) none
  rw [hparse, hparsed.unique h fun m => ?_]
  rw [h.split_format, ← h.entries]
  refine Iff.trans ?_ (h.isEntry_texts m)
  simp [IsEntry]

/-! ## The canonical form -/

/-- What a canonical form is made of. -/
theorem nodefamilyCanonicalize_eq (Q : Qsort) (theNodeFamilies : List NodeFamily) (s : Bytes)
    (rsaIdSelf : Option Digest20) : ∃ family, Parsed (splitMembers s) rsaIdSelf family
      ∧ nodefamilyCanonicalize Q theNodeFamilies s rsaIdSelf false
        = [byte ' '].intercalate
          (Q.sort strcmp ((splitMembers s).filter isUnrecognized ++ memberTexts family)) := by
  obtain ⟨family, hparse, hparsed⟩ := nodefamilyParse_spec Q theNodeFamilies s rsaIdSelf
  refine ⟨family, hparsed, ?_⟩
  unfold nodefamilyCanonicalize
  simp only [hparse, hparsed.split_format]

/-- The canonical forms of texts with the same entries and the same unrecognized words are the same,
in whatever order these stand. -/
theorem nodefamilyCanonicalize_congr
    (hother : ((splitMembers s).filter isUnrecognized).Perm
      ((splitMembers t).filter isUnrecognized))
    (hsame : ∀ m, IsEntry (splitMembers s) rsaIdSelf m ↔ IsEntry (splitMembers t) rsaIdSelf m) :
    nodefamilyCanonicalize Q theNodeFamilies s rsaIdSelf false
      = nodefamilyCanonicalize Q theNodeFamilies t rsaIdSelf false := by
  obtain ⟨family, hparsed, hform⟩ := nodefamilyCanonicalize_eq Q theNodeFamilies s rsaIdSelf
  obtain ⟨family', hparsed', hform'⟩ := nodefamilyCanonicalize_eq Q theNodeFamilies t rsaIdSelf
  rw [hform, hform', hparsed.unique hparsed' hsame,
    Q.sort_eq_of_perm (hother.append_right _) (consistentOn_strcmp _) (separatesOn_strcmp _)]

/-- **Canonicalizing once more** changes nothing. -/
theorem nodefamilyCanonicalize_idem :
    nodefamilyCanonicalize Q theNodeFamilies
        (nodefamilyCanonicalize Q theNodeFamilies s rsaIdSelf false) rsaIdSelf false
      = nodefamilyCanonicalize Q theNodeFamilies s rsaIdSelf false := by
  obtain ⟨family, hparsed, hform⟩ := nodefamilyCanonicalize_eq Q theNodeFamilies s rsaIdSelf
  obtain ⟨-, hread⟩ := hparsed.texts
  have hperm := Q.perm strcmp ((splitMembers s).filter isUnrecognized ++ memberTexts family)
  have hsplit : splitMembers (nodefamilyCanonicalize Q theNodeFamilies s rsaIdSelf false)
      = Q.sort strcmp ((splitMembers s).filter isUnrecognized ++ memberTexts family) := by
    rw [hform]
    refine splitMembers_join fun w hw => ?_
    rcases List.mem_append.mp (hperm.mem_iff.mp hw) with hw | hw
    · exact isWord_of_mem (List.mem_filter.mp hw).1
    · obtain ⟨m, -, htext⟩ := hread w hw
      exact htext.isWord
  refine nodefamilyCanonicalize_congr ?_ fun m => ?_
  · -- the words that are not recognized are those of the first text
    have hnone : (memberTexts family).filter isUnrecognized = [] := by
      rw [List.filter_eq_nil_iff]
      intro w hw hother
      obtain ⟨m, -, htext⟩ := hread w hw
      have hmember := htext.read
      rw [memberOf_eq_none.mpr hother] at hmember
      cases hmember
    have hfilter := hperm.filter isUnrecognized
    rw [List.filter_append, List.filter_filter, hnone, List.append_nil] at hfilter
    rw [hsplit]
    simpa using hfilter
  · rw [hsplit, ← hparsed.entries, IsEntry]
    constructor
    · rintro (⟨cp, hcp, hmember⟩ | ⟨id, hid, rfl⟩)
      · rcases List.mem_append.mp (hperm.mem_iff.mp hcp) with hcp | hcp
        · rw [memberOf_eq_none.mpr (List.mem_filter.mp hcp).2] at hmember
          cases hmember
        · exact (hparsed.isEntry_texts m).mp ⟨cp, hcp, hmember⟩
      · exact (hparsed.entries _).mpr (.inr ⟨id, hid, rfl⟩)
    · intro hm
      obtain ⟨cp, hcp, hmember⟩ := (hparsed.isEntry_texts m).mpr hm
      exact .inl ⟨cp, hperm.mem_iff.mpr (List.mem_append_right _ hcp), hmember⟩

/-- Two texts of one family: the same words that are not recognized, in any order, and members that
are spelled in the other one too, in any order and number. -/
structure SameFamily (s t : Bytes) : Prop where
  unrecognized : ((splitMembers s).filter isUnrecognized).Perm
    ((splitMembers t).filter isUnrecognized)
  left : ∀ a ∈ splitMembers s, isUnrecognized a = false → ∃ b ∈ splitMembers t, SameMember a b
  right : ∀ b ∈ splitMembers t, isUnrecognized b = false → ∃ a ∈ splitMembers s, SameMember a b

theorem SameFamily.isEntry (h : SameFamily s t) (m : Bytes) :
    IsEntry (splitMembers s) rsaIdSelf m ↔ IsEntry (splitMembers t) rsaIdSelf m := by
  have hrecognized : ∀ {cp m : Bytes}, memberOf cp = some m → isUnrecognized cp = false := by
    intro cp m hmember
    rw [Bool.eq_false_iff]
    intro hother
    rw [memberOf_eq_none.mpr hother] at hmember
    cases hmember
  refine or_congr_left ⟨?_, ?_⟩
  · rintro ⟨a, ha, hmember⟩
    obtain ⟨b, hb, hsame⟩ := h.left a ha (hrecognized hmember)
    exact ⟨b, hb, hsame.memberOf_eq ▸ hmember⟩
  · rintro ⟨b, hb, hmember⟩
    obtain ⟨a, ha, hsame⟩ := h.right b hb (hrecognized hmember)
    exact ⟨a, ha, hsame.memberOf_eq.trans hmember⟩

/-- **Family lists have one canonical form.** -/
theorem family_lists_canonical (Q : Qsort) (theNodeFamilies : List NodeFamily) (s : Bytes)
    (rsaIdSelf : Option Digest20) :
    nodefamilyCanonicalize Q theNodeFamilies
          (nodefamilyCanonicalize Q theNodeFamilies s rsaIdSelf false) rsaIdSelf false
        = nodefamilyCanonicalize Q theNodeFamilies s rsaIdSelf false
      ∧ (∀ t, SameFamily s t → nodefamilyCanonicalize Q theNodeFamilies t rsaIdSelf false
        = nodefamilyCanonicalize Q theNodeFamilies s rsaIdSelf false)
      ∧ ∃ family, nodefamilyParse Q theNodeFamilies s rsaIdSelf false = some family
        ∧ family.members.Pairwise (fun a b => strcmp a b < 0)
        ∧ family.members.Nodup
        ∧ (∀ id ∈ rsaIdSelf, rsaIdMember id.val ∈ family.members)
        ∧ nodefamilyParse Q theNodeFamilies (nodefamilyFormat (some family)) none false
          = some family := by
  obtain ⟨family, hparse, hparsed⟩ := nodefamilyParse_spec Q theNodeFamilies s rsaIdSelf
  refine ⟨nodefamilyCanonicalize_idem, fun t hsame => ?_, family, hparse, hparsed.sorted,
    hparsed.sorted.nodup, fun id hid => ?_, hparsed.parse_format⟩
  · exact (nodefamilyCanonicalize_congr hsame.unrecognized fun m => hsame.isEntry m).symm
  · exact (hparsed.entries _).mpr (.inr ⟨id, hid, rfl⟩)

end Families

end Dittor.Tor

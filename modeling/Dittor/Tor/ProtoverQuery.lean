import Mathlib
import Dittor.Tor.LetterCase
import Dittor.Tor.Protover
import Dittor.Tor.ProtoverRoundTrip

/-!
# Asking for a version or a later one (`protover.c`)

`protocol_list_supports_protocol` looks up the first entry of exactly the name of the protocol;
`protocol_list_supports_protocol_or_later` goes through all entries, and compares names up to letter
case. A version that the first finds is found by the second (`orLater_of_supports`); the other way
around they agree exactly if what the second finds is not only in entries that the first passes over
(`supports_or_later_iff`).
-/

namespace Dittor.Tor

open Dittor.Lib

/-! ## The queries -/

/-- `protocol_type_t` -/
inductive ProtocolType where
  | link | linkauth | relay | dircache | hsdir | hsintro | hsrend | desc | microdesc | cons | padding
  | flowctrl | conflux
deriving DecidableEq, Repr

/-- `PROTOCOL_NAMES` -/
def protocolNames : List (ProtocolType × String) :=
  [(.link, "Link"), (.linkauth, "LinkAuth"), (.relay, "Relay"), (.dircache, "DirCache"),
    (.hsdir, "HSDir"), (.hsintro, "HSIntro"), (.hsrend, "HSRend"), (.desc, "Desc"),
    (.microdesc, "Microdesc"), (.padding, "Padding"), (.cons, "Cons"), (.flowctrl, "FlowCtrl"),
    (.conflux, "Conflux")]

/-- `protocol_type_to_str` -/
def protocolTypeToStr (pr : ProtocolType) : Bytes :=
  match protocolNames.find? fun p => p.1 = pr with
  | some (_, name) => cstring name
  | none => cstring "UNKNOWN"

/-- `protocol_list_contains` -/
def protocolListContains (protos : List ProtoEntry) (pr : ProtocolType) (ver : ℕ) : Bool :=
  if maxProtocolVersion < ver then false
  else match findEntryByName protos (protocolTypeToStr pr) with
  | some ent => ent.bitmask &&& (1#64 <<< ver) ≠ 0
  | none => false

/-- `protocol_list_supports_protocol` -/
def protocolListSupportsProtocol (list : Bytes) (tp : ProtocolType) (version : ℕ) : Bool :=
  match parseProtocolList list with
  | none => false
  | some protocols => protocolListContains protocols tp version

/-- `protocol_list_supports_protocol_or_later` -/
def protocolListSupportsProtocolOrLater (list : Bytes) (tp : ProtocolType) (version : ℕ) : Bool :=
  match parseProtocolList list with
  | none => false
  | some protocols =>
    let prName := protocolTypeToStr tp
    let mask := bitmaskForRange version 63
    protocols.any fun proto =>
      strcasecmp proto.name prName = 0 && proto.bitmask &&& mask ≠ 0

/-! ## Bits -/

theorem and_one_ne_zero {mask : BitVec 64} {ver : ℕ} (h : ver ≤ 63) :
    mask &&& (1#64 <<< ver) ≠ 0 ↔ mask.getLsbD ver = true := by
  have hbit : ∀ i, (1#64 <<< ver).getLsbD i = decide (i = ver) := fun i => by
    rw [BitVec.getLsbD_shiftLeft, BitVec.getLsbD_one, Bool.eq_iff_iff]
    simp only [Bool.and_eq_true, Bool.not_eq_true', decide_eq_true_eq, decide_eq_false_iff_not]
    omega
  constructor
  · contrapose!
    intro hoff
    refine BitVec.eq_of_getLsbD_eq fun i _ => ?_
    rw [BitVec.getLsbD_and, hbit, BitVec.ofNat_eq_ofNat, BitVec.getLsbD_zero]
    by_cases hi : i = ver
    · rw [hi, Bool.eq_false_iff.mpr hoff]
      rfl
    · rw [decide_eq_false hi, Bool.and_false]
  · intro hon hzero
    have hi := congrArg (fun x => x.getLsbD ver) hzero
    simp only [BitVec.getLsbD_and, hbit, hon, BitVec.ofNat_eq_ofNat, BitVec.getLsbD_zero] at hi
    simp at hi

/-- A version from `version` on. -/
def HasFrom (version : ℕ) (entry : ProtoEntry) : Prop :=
  ∃ w, version ≤ w ∧ w ≤ 63 ∧ entry.bitmask.getLsbD w = true

theorem and_range_ne_zero {entry : ProtoEntry} {version : ℕ} :
    entry.bitmask &&& bitmaskForRange version 63 ≠ 0 ↔ HasFrom version entry := by
  constructor
  · contrapose!
    intro hnone
    refine BitVec.eq_of_getLsbD_eq fun i hi => ?_
    rw [BitVec.getLsbD_and, getLsbD_bitmaskForRange le_rfl, BitVec.ofNat_eq_ofNat,
      BitVec.getLsbD_zero, Bool.and_eq_false_iff]
    by_cases hversion : version ≤ i
    · exact .inl (Bool.eq_false_iff.mpr fun hbit => hnone ⟨i, hversion, by omega, hbit⟩)
    · exact .inr (decide_eq_false fun h => hversion h.1)
  · rintro ⟨w, hversion, hw, hbit⟩ hzero
    have hi := congrArg (fun x => x.getLsbD w) hzero
    simp only [BitVec.getLsbD_and, getLsbD_bitmaskForRange le_rfl, hbit, BitVec.ofNat_eq_ofNat,
      BitVec.getLsbD_zero] at hi
    simp [hversion, hw] at hi

/-! ## What is found -/

section Found

variable {list : Bytes} {tp : ProtocolType} {version : ℕ}

/-- The entries that the list has; none if it cannot be parsed. -/
def parsedEntries (list : Bytes) : List ProtoEntry := (parseProtocolList list).getD []

theorem supportsProtocol_iff : protocolListSupportsProtocol list tp version = true
    ↔ version ≤ 63 ∧ ∃ ent, findEntryByName (parsedEntries list) (protocolTypeToStr tp) = some ent
      ∧ ent.bitmask.getLsbD version = true := by
  unfold protocolListSupportsProtocol parsedEntries protocolListContains maxProtocolVersion
  cases parseProtocolList list with
  | none => simp [findEntryByName]
  | some protocols =>
    simp only [Option.getD_some]
    by_cases hversion : 63 < version
    · rw [if_pos hversion]
      constructor
      · intro h
        cases h
      · rintro ⟨hle, -⟩
        omega
    · rw [if_neg hversion]
      cases hfind : findEntryByName protocols (protocolTypeToStr tp) with
      | none => simp
      | some ent =>
        simp only [decide_eq_true_eq, Option.some.injEq, exists_eq_left']
        rw [and_one_ne_zero (not_lt.mp hversion)]
        exact ⟨fun h => ⟨not_lt.mp hversion, h⟩, And.right⟩

theorem orLater_iff : protocolListSupportsProtocolOrLater list tp version = true
    ↔ ∃ ent ∈ parsedEntries list, strcasecmp ent.name (protocolTypeToStr tp) = 0
      ∧ HasFrom version ent := by
  unfold protocolListSupportsProtocolOrLater parsedEntries
  cases parseProtocolList list with
  | none => simp
  | some protocols =>
    simp only [Option.getD_some, List.any_eq_true, Bool.and_eq_true, decide_eq_true_eq,
      and_range_ne_zero]

/-- Some version from `version` on is supported if the first entry of the name has one. -/
theorem exists_supports_iff :
    (∃ w, version ≤ w ∧ w ≤ 63 ∧ protocolListSupportsProtocol list tp w = true)
      ↔ ∃ ent, findEntryByName (parsedEntries list) (protocolTypeToStr tp) = some ent
        ∧ HasFrom version ent := by
  simp only [supportsProtocol_iff]
  constructor
  · rintro ⟨w, hversion, -, hw, ent, hent, hbit⟩
    exact ⟨ent, hent, w, hversion, hw, hbit⟩
  · rintro ⟨ent, hent, w, hversion, hw, hbit⟩
    exact ⟨w, hversion, hw, hw, ent, hent, hbit⟩

/-- An entry that is looked up is among those that are gone through. -/
theorem findEntryByName_spec {protos : List ProtoEntry} {name : Bytes} {ent : ProtoEntry}
    (h : findEntryByName protos name = some ent) : ent ∈ protos ∧ ent.name = name := by
  refine ⟨List.mem_of_find?_eq_some h, ?_⟩
  simpa using List.find?_some h

theorem orLater_of_supports {w : ℕ} (hversion : version ≤ w)
    (h : protocolListSupportsProtocol list tp w = true) :
    protocolListSupportsProtocolOrLater list tp version = true := by
  obtain ⟨hw, ent, hent, hbit⟩ := supportsProtocol_iff.mp h
  obtain ⟨hmem, hname⟩ := findEntryByName_spec hent
  exact orLater_iff.mpr ⟨ent, hmem, strcasecmp_eq_zero.mpr (by rw [hname]), w, hversion, hw, hbit⟩

/-- **The two agree** exactly if, where an entry of the name up to letter case has such a version,
the first entry of exactly the name has one. -/
theorem supports_or_later_iff (list : Bytes) (tp : ProtocolType) (version : ℕ) :
    (protocolListSupportsProtocolOrLater list tp version = true
        ↔ ∃ w, version ≤ w ∧ w ≤ 63 ∧ protocolListSupportsProtocol list tp w = true)
      ↔ ∀ ent ∈ parsedEntries list, torStrlower ent.name = torStrlower (protocolTypeToStr tp) →
        HasFrom version ent →
        ∃ first, findEntryByName (parsedEntries list) (protocolTypeToStr tp) = some first
          ∧ HasFrom version first := by
  rw [exists_supports_iff, orLater_iff]
  simp only [strcasecmp_eq_zero]
  constructor
  · rintro ⟨hfind, -⟩ ent hent hname hfrom
    exact hfind ⟨ent, hent, hname, hfrom⟩
  · intro hcond
    refine ⟨?_, ?_⟩
    · rintro ⟨ent, hent, hname, hfrom⟩
      exact hcond ent hent hname hfrom
    · rintro ⟨first, hfirst, hfrom⟩
      obtain ⟨hmem, hname⟩ := findEntryByName_spec hfirst
      exact ⟨first, hmem, by rw [hname], hfrom⟩

/-- A name in another letter case, and a second entry of the name, are not looked up. -/
theorem or_later_alone :
    (protocolListSupportsProtocolOrLater (cstring "LINK=5") .link 4 = true
      ∧ ¬ ∃ w, 4 ≤ w ∧ w ≤ 63 ∧ protocolListSupportsProtocol (cstring "LINK=5") .link w = true)
    ∧ protocolListSupportsProtocolOrLater (cstring "Link=1 Link=5") .link 4 = true
      ∧ ¬ ∃ w, 4 ≤ w ∧ w ≤ 63
        ∧ protocolListSupportsProtocol (cstring "Link=1 Link=5") .link w = true := by
  have hrun : ∀ list ∈ [cstring "LINK=5", cstring "Link=1 Link=5"],
      protocolListSupportsProtocolOrLater list .link 4 = true
        ∧ ∀ w ≤ 63, 4 ≤ w → protocolListSupportsProtocol list .link w = false := by
    decide +kernel
  have halone : ∀ list ∈ [cstring "LINK=5", cstring "Link=1 Link=5"],
      protocolListSupportsProtocolOrLater list .link 4 = true
        ∧ ¬ ∃ w, 4 ≤ w ∧ w ≤ 63 ∧ protocolListSupportsProtocol list .link w = true := by
    intro list hlist
    obtain ⟨hlater, hnone⟩ := hrun list hlist
    refine ⟨hlater, ?_⟩
    rintro ⟨w, hle, hmax, hw⟩
    rw [hnone w hmax hle] at hw
    cases hw
  exact ⟨halone _ (by simp), halone _ (by simp)⟩

end Found

end Dittor.Tor

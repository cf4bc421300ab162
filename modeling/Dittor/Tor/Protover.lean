import Dittor.Lib.Checks
import Dittor.Lib.Decimal
import Dittor.Lib.LowestBit
import Dittor.Lib.Qsort
import Dittor.Tor.Descriptor

/-!
# Subprotocol versions (`protover.c`)

A protocol list is a text such as `Cons=1-2 Link=4,5`: names, each with the versions between 0
and 63 that are supported, kept as a bit field. Authorities vote on four such lists; a version
of a protocol is in the consensus if enough of them list it.
-/

namespace Dittor.Tor

open Dittor.Lib

/-- `proto_entry_t` -/
structure ProtoEntry where
  name : Bytes
  bitmask : BitVec 64
deriving DecidableEq, Repr

/-- `MAX_PROTOCOL_VERSION` -/
def maxProtocolVersion : ℕ := 63

/-- `MAX_PROTOCOL_NAME_LENGTH` -/
def maxProtocolNameLength : ℕ := 100

/-- `parse_version_range`. A range ends at a comma, a space or the end of the text, none of
which is a digit, so reading the numbers does not go beyond it. -/
def parseVersionRange (s : Bytes) : Option (ℕ × ℕ) :=
  match readDecimal s with
  | some (low, rest) =>
    if maxProtocolVersion < low then none
    else match rest with
    | [] => some (low, low)
    | b :: rest =>
      if b ≠ byte '-' then none
      else match readDecimal rest with
      | some (high, []) =>
        if maxProtocolVersion < high ∨ high < low then none else some (low, high)
      | _ => none
  | none => none

/-- `bitmask_for_range` -/
def bitmaskForRange (low high : ℕ) : BitVec 64 :=
  ((BitVec.allOnes 64 <<< (63 - high)) >>> (63 - high + low)) <<< low

/-- `TOR_ISALNUM` -/
def isAlnum (b : UInt8) : Bool :=
  isDigit b || (65 ≤ b.toNat && b.toNat ≤ 90) || (97 ≤ b.toNat && b.toNat ≤ 122)

/-- `is_valid_keyword` -/
def isValidKeyword (s : Bytes) : Bool := s.all fun b => isAlnum b || b = byte '-'

/-- The versions behind the `=`; a comma at the end leaves an empty range, which is an error. -/
def parseRanges (s : Bytes) : Option (BitVec 64) :=
  if s = [] then some 0
  else (s.splitOn (byte ',')).foldlM (fun mask range => do
    let (low, high) ← parseVersionRange range
    some (mask ||| bitmaskForRange low high)) 0

/-- `parse_single_entry` -/
def parseSingleEntry (s : Bytes) : Option ProtoEntry :=
  match s.dropWhile fun b => b ≠ byte '=' with
  | [] => none
  | _ :: ranges =>
    let name := s.takeWhile fun b => b ≠ byte '='
    if name = [] ∨ maxProtocolNameLength < name.length ∨ isValidKeyword name = false then none
    else (parseRanges ranges).map fun mask => ⟨name, mask⟩

/-- `parse_protocol_list`; blanks are skipped behind an entry, not before the first one. -/
def parseProtocolList (s : Bytes) : Option (List ProtoEntry) :=
  if s = [] then some []
  else do
    let entry ← parseSingleEntry (s.takeWhile fun b => b ≠ byte ' ')
    let rest ← match _h : s.dropWhile fun b => b ≠ byte ' ' with
      | [] => some []
      | _ :: rest => parseProtocolList (rest.dropWhile fun b => b = byte ' ')
    some (entry :: rest)
termination_by s.length
decreasing_by
  have h1 := (List.dropWhile_suffix (l := rest) fun b => decide (b = byte ' ')).length_le
  have h2 := (List.dropWhile_suffix (l := s) fun b => decide (b ≠ byte ' ')).length_le
  rw [_h, List.length_cons] at h2
  omega

/-- `protover_list_is_invalid` -/
def protoverListIsInvalid (s : Bytes) : Bool := (parseProtocolList s).isNone

/-- `find_entry_by_name` -/
def findEntryByName (protos : List ProtoEntry) (name : Bytes) : Option ProtoEntry :=
  protos.find? fun ent => ent.name = name

/-- `trailing_zeros`, which is undefined for zero. -/
def trailingZeros (x : BitVec 64) : Option ℕ := lowestBit x

/-- The text of the versions from `shift` on, `ones` of them. -/
def rangeText (shift ones : ℕ) : Bytes :=
  if ones = 1 then decimal shift
  else decimal shift ++ cstring "-" ++ decimal (shift + ones - 1)

/-- The loop of `proto_entry_encode_into`, if `trailing_zeros` is defined where it is called. Every
round clears a bit, so the number of bits bounds it. -/
def encodeRanges : ℕ → Bool → ℕ → BitVec 64 → Option Bytes
  | 0, _, _, _ => some []
  | rounds + 1, first, shift, mask =>
    if mask = 0 then some []
    else do
      let comma := if first then [] else cstring ","
      let zeros ← trailingZeros mask
      let mask := mask >>> zeros
      let shift := shift + zeros
      -- the mask has a bit left, so it is the second number that is taken
      let ones ← if mask = 0 then some 64 else trailingZeros (~~~mask)
      if ones = 64 then some (comma ++ rangeText shift ones)
      else do
        let rest ← encodeRanges rounds false (shift + ones) (mask >>> ones)
        some (comma ++ rangeText shift ones ++ rest)

/-- `proto_entry_encode_into` -/
def protoEntryEncode (entry : ProtoEntry) : Option Bytes :=
  (encodeRanges 64 true 0 entry.bitmask).map fun ranges => entry.name ++ byte '=' :: ranges

/-- `encode_protocol_list` -/
def encodeProtocolList (sl : List ProtoEntry) : Option Bytes :=
  (sl.mapM protoEntryEncode).map fun entries => [byte ' '].intercalate entries

/-- The names in the lists, each once, in the order of their first mention. -/
def protoNames (parsed : List (List ProtoEntry)) : List Bytes :=
  parsed.flatten.foldl (fun names ent => if ent.name ∈ names then names else names ++ [ent.name]) []

/-- One vote counted: its first entry of that name. -/
def countVote (name : Bytes) (counts : ℕ → UInt8) (vote : List ProtoEntry) : ℕ → UInt8 :=
  match findEntryByName vote name with
  | none => counts
  | some ent => fun i => if ent.bitmask.getLsbD i then counts i + 1 else counts i

/-- `counts`, of which each is a `uint8_t`. -/
def countVersions (parsed : List (List ProtoEntry)) (name : Bytes) : ℕ → UInt8 :=
  parsed.foldl (countVote name) fun _ => 0

/-- The versions of a protocol that enough votes have. -/
def resultBitmask (counts : ℕ → UInt8) (threshold : ℤ) : BitVec 64 :=
  (List.range 64).foldl (fun mask i =>
    if threshold ≤ (counts i).toNat then mask ||| (1#64 <<< i) else mask) 0

/-- The entries that `protover_compute_vote` encodes; a list that does not parse is skipped. -/
def computeVoteEntries (Q : Qsort) (listOfProtoStrings : List Bytes) (threshold : ℤ) :
    List ProtoEntry :=
  let parsed := listOfProtoStrings.filterMap parseProtocolList
  (Q.sort strcmp (protoNames parsed)).filterMap fun name =>
    let mask := resultBitmask (countVersions parsed name) threshold
    if mask = 0 then none else some (ProtoEntry.mk name mask)

/-- The assertion on the number of votes, and `trailing_zeros` of zero. -/
inductive ComputeVoteFailure where
  | tooManyVotes | zero
deriving DecidableEq, Repr

/-- `protover_compute_vote` -/
def protoverComputeVote (Q : Qsort) (listOfProtoStrings : List Bytes) (threshold : ℤ) :
    Except ComputeVoteFailure Bytes := do
  torAssert (listOfProtoStrings.length < 256) .tooManyVotes
  if listOfProtoStrings = [] then return []
  torAssertSome .zero (encodeProtocolList (computeVoteEntries Q listOfProtoStrings threshold))

end Dittor.Tor

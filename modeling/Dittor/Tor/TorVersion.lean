import Dittor.Lib.Decimal
import Dittor.Lib.Qsort
import Dittor.Lib.Smartlist
import Dittor.Tor.Base64

/-!
# Versions of Tor (`versions.c`)

Recommended versions are voted on as texts, but sorted by the version each stands for: two
texts can stand for one version, and are then neighbours in either order. Numbers are compared
by the sign of their difference in 32 bits, so the revision, which can be any `int`, is not
ordered at all.
-/

namespace Dittor.Tor

open Dittor.Lib

/-- `tor_version_t`; the status is 0, 1 or 2 for a prerelease, a release candidate and a
release. -/
structure TorVersion where
  major : ℕ := 0
  minor : ℕ := 0
  micro : ℕ := 0
  status : ℕ := 2
  patchlevel : ℕ := 0
  statusTag : Bytes := []
  svnRevision : ℤ := 0
  gitTag : Bytes := []
deriving DecidableEq, Repr

/-- The macro `NUMBER`: the number and what follows it. -/
def versionNumber (cp : Bytes) : Option (ℕ × Bytes) :=
  match readDecimal cp with
  | some (n, rest) => if n ≤ 2147483647 then some (n, rest) else none
  | none => none

/-- The macro `DOT` -/
def versionDot : Bytes → Option Bytes
  | b :: rest => if b = byte '.' then some rest else none
  | [] => none

/-- A `long` as an `int`. -/
def longToInt (r : ℤ) : ℤ :=
  Int.bmod (max (-9223372036854775808) (min 9223372036854775807 r)) 4294967296

/-- `MAX_STATUS_TAG_LEN` -/
def maxStatusTagLen : ℕ := 32

/-- From the label `status_tag` on. -/
def versionStatusTag (v : TorVersion) (cp : Bytes) : Option TorVersion :=
  let cp := match cp with
    | b :: rest => if b = byte '-' ∨ b = byte '.' then rest else cp
    | [] => []
  let tag := cp.takeWhile fun b => !isWhitespace b
  let v := { v with statusTag := tag.take (maxStatusTagLen - 1) }
  let cp := eatWhitespace false (cp.drop tag.length)
  if (cstring "(r").isPrefixOf cp then
    some { v with svnRevision := longToInt (((strtol (cp.drop 2)).map (·.1)).getD 0) }
  else if (cstring "(git-").isPrefixOf cp then
    let hex := (cp.drop 5).takeWhile fun b => b ≠ byte ')'
    if hex.length = (cp.drop 5).length ∨ 40 < hex.length ∨ hex = [] ∨ hex.length % 2 = 1 then none
    else (base16Decode hex).map fun digest => { v with gitTag := digest }
  else some v

/-- `tor_version_parse` -/
def torVersionParse (s : Bytes) : Option TorVersion := do
  let s := if (s.take 4).map lower = cstring "tor " then s.drop 4 else s
  let (major, cp) ← versionNumber s
  let cp ← versionDot cp
  let (minor, cp) ← versionNumber cp
  let v : TorVersion := { major := major, minor := minor }
  match cp with
  | [] => some v
  | b :: rest =>
    if b = byte '-' then versionStatusTag v cp
    else
      let cp ← versionDot (b :: rest)
      let (micro, cp) ← versionNumber cp
      let v := { v with micro := micro }
      match cp with
      | [] => some v
      | b :: rest =>
        if b = byte '-' then versionStatusTag v (b :: rest)
        else
          let (v, cp) ←
            if b = byte '.' then some (v, rest)
            else if (cstring "pre").isPrefixOf (b :: rest) then
              some ({ v with status := 0 }, (b :: rest).drop 3)
            else if (cstring "rc").isPrefixOf (b :: rest) then
              some ({ v with status := 1 }, (b :: rest).drop 2)
            else none
          let (patchlevel, cp) ← versionNumber cp
          versionStatusTag { v with patchlevel := patchlevel } cp
where
  lower (b : UInt8) : UInt8 := if 65 ≤ b.toNat ∧ b.toNat ≤ 90 then b + 32 else b

/-- The macro `CMP`: the sign of a difference in 32 bits. -/
def cmpWrapped (a b : ℤ) : ℤ := (Int.bmod (a - b) 4294967296).sign

/-- The first comparison that tells two versions apart. -/
def firstDifference : List ℤ → ℤ
  | [] => 0
  | c :: cs => if c = 0 then firstDifference cs else c

/-- `tor_version_compare` -/
def torVersionCompare (a b : TorVersion) : ℤ :=
  firstDifference [cmpWrapped a.major b.major, cmpWrapped a.minor b.minor,
    cmpWrapped a.micro b.micro, cmpWrapped a.status b.status,
    cmpWrapped a.patchlevel b.patchlevel, strcmp a.statusTag b.statusTag,
    cmpWrapped a.svnRevision b.svnRevision, cmpWrapped a.gitTag.length b.gitTag.length,
    strcmp a.gitTag b.gitTag]

/-- `compare_tor_version_str_ptr_` -/
def compareTorVersionStr (a b : Bytes) : ℤ :=
  match torVersionParse a, torVersionParse b with
  | some va, some vb => torVersionCompare va vb
  | some _, none => -1
  | none, some _ => 1
  | none, none => strcmp a b

/-- `sort_version_list` -/
def sortVersionList (Q : Qsort) (versions : List Bytes) (removeDuplicates : Bool) : List Bytes :=
  let sorted := Q.sort compareTorVersionStr versions
  if removeDuplicates then smartlistUniq compareTorVersionStr sorted else sorted

end Dittor.Tor

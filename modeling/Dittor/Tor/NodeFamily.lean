import Mathlib
import Dittor.Lib.Compare
import Dittor.Lib.Decimal
import Dittor.Lib.Words
import Dittor.Tor.Address
import Dittor.Tor.LetterCase
import Dittor.Tor.RouterEntry
import Dittor.Tor.VoteParse

/-!
# Node families (`nodefamily.c`, `nickname.c`)

A relay's family is a text of nicknames and of identities in hexadecimal. `nodefamily_from_members`
packs what it recognizes into entries of 21 bytes, a tag and the data, sorts them and removes
duplicates. What it does not recognize travels beside them.

The loop that removes duplicates moves the rest of the array down by one entry and looks at the
same place again. On a sorted array it leaves a strictly sorted one with the same entries
(`removeDuplicates_spec`), so a family depends on the set of its members alone
(`nodefamilyFromMembers_spec`).
-/

namespace Dittor.Tor

open Dittor.Lib

/-! ## Reading a member -/

/-- The text without the dollar sign in front. -/
def dropDollar (s : Bytes) : Bytes := if s.head? = some (byte '$') then s.tail else s

/-- `HEX_DIGEST_LEN` -/
def hexDigestLen : ℕ := 40

/-- `=` or `~` -/
def isQualifier (b : Option UInt8) : Bool := b = some (byte '=') || b = some (byte '~')

/-- `is_legal_hexdigest` -/
def isLegalHexdigest (s : Bytes) : Bool :=
  let s := dropDollar s
  let len := s.length
  if hexDigestLen < len
      && !(isQualifier s[hexDigestLen]? && isLegalNickname (s.drop (hexDigestLen + 1))) then false
  else hexDigestLen ≤ len && (s.takeWhile isXDigit).length = hexDigestLen

/-- `hex_digest_nickname_decode`; the name behind the digest is not used here. -/
def hexDigestNicknameDecode (hexdigest : Bytes) : Option Bytes :=
  let hexdigest := dropDollar hexdigest
  let len := hexdigest.length
  if len < hexDigestLen then none
  else if hexDigestLen < len && isQualifier hexdigest[hexDigestLen]? && len ≤ hexDigestLen + 1 + 19
      || len = hexDigestLen then
    (base16Decode (hexdigest.take hexDigestLen)).filter fun digest => digest.length = 20
  else none

/-- `NODEFAMILY_BY_RSA_ID` -/
def nodefamilyByRsaId : UInt8 := 0

/-- `NODEFAMILY_BY_NICKNAME` -/
def nodefamilyByNickname : UInt8 := 1

/-- The entry for an identity. -/
def rsaIdMember (digest : Bytes) : Bytes := nodefamilyByRsaId :: digest

/-- The entry for a nickname; the entries are zero before they are filled. -/
def nicknameMember (nickname : Bytes) : Bytes :=
  nodefamilyByNickname :: (torStrlower nickname ++ List.replicate (20 - nickname.length) 0)

/-- The entry for a text; none for a bad element. -/
def memberOf (cp : Bytes) : Option Bytes :=
  if isLegalNickname cp then some (nicknameMember cp)
  else if isLegalHexdigest cp then (hexDigestNicknameDecode cp).map rsaIdMember
  else none

/-- A text that is neither a nickname nor a digest. -/
def isUnrecognized (cp : Bytes) : Bool := !isLegalNickname cp && !isLegalHexdigest cp

/-! ## A family -/

/-- `nodefamily_t`, with its array of `n_members` entries. -/
structure NodeFamily where
  members : List Bytes
deriving DecidableEq, Repr

/-- The loop that removes duplicates among the first `nMembers` entries. -/
def removeDuplicates (familyMembers : List Bytes) (nMembers i : ℕ) : List Bytes × ℕ :=
  if i + 1 < nMembers then
    if familyMembers[i]? = familyMembers[i + 1]? then
      -- `memmove` on the entries behind this one; the last one stays where it is, too
      removeDuplicates (familyMembers.take i
        ++ (familyMembers.drop (i + 1)).take (nMembers - i - 1)
        ++ familyMembers.drop (nMembers - 1)) (nMembers - 1) i
    else removeDuplicates familyMembers nMembers (i + 1)
  else (familyMembers, nMembers)
termination_by nMembers - i

/-- An equal family that is there already, else the new one, which is inserted. -/
def nodefamilyIntern (theNodeFamilies : List NodeFamily) (tmp : NodeFamily) :
    NodeFamily × List NodeFamily :=
  match theNodeFamilies.find? fun found => found = tmp with
  | some found => (found, theNodeFamilies)
  | none => (tmp, tmp :: theNodeFamilies)

/-- `nodefamily_from_members`; the flag is `NF_REJECT_MALFORMED`. -/
def nodefamilyFromMembers (Q : Qsort) (theNodeFamilies : List NodeFamily) (members : List Bytes)
    (rsaIdSelf : Option Digest20) (rejectMalformed : Bool) :
    Option (NodeFamily × List NodeFamily) :=
  let nSelf := if rsaIdSelf.isSome then 1 else 0
  let good := members.filterMap memberOf
  let nBadElements := members.length - good.length
  if nBadElements ≠ 0 ∧ rejectMalformed then none
  else
    let filled := good ++ rsaIdSelf.toList.map fun id => rsaIdMember id.val
    let nMembers := members.length + nSelf - nBadElements
    let tmp := filled ++ List.replicate nBadElements (List.replicate 21 0)
    let sorted := Q.sort strcmp (tmp.take nMembers) ++ tmp.drop nMembers
    let (familyMembers, nMembers) := removeDuplicates sorted nMembers 0
    some (nodefamilyIntern theNodeFamilies ⟨familyMembers.take nMembers⟩)

/-- A member as a text; there are no entries with another tag. -/
def formatMember (member : Bytes) : Option Bytes :=
  match member with
  | [] => none
  | tag :: data =>
    if tag = nodefamilyByNickname then some (data.takeWhile fun b => b ≠ 0)
    else if tag = nodefamilyByRsaId then some (byte '$' :: torStrupper (base16Encode data))
    else none

/-- `nodefamily_format` -/
def nodefamilyFormat (family : Option NodeFamily) : Bytes :=
  match family with
  | none => []
  | some family => [byte ' '].intercalate (family.members.filterMap formatMember)

/-- `smartlist_split_string` at blanks and tabs, with spaces skipped and blank entries left out. -/
def splitMembers (s : Bytes) : List Bytes :=
  wordsBy isSpace (fun b => b = byte '\t' || b = byte ' ') s

/-- `nodefamily_parse` -/
def nodefamilyParse (Q : Qsort) (theNodeFamilies : List NodeFamily) (s : Bytes)
    (rsaIdSelf : Option Digest20) (rejectMalformed : Bool) : Option NodeFamily :=
  (nodefamilyFromMembers Q theNodeFamilies (splitMembers s) rsaIdSelf rejectMalformed).map Prod.fst

/-- `nodefamily_canonicalize` -/
def nodefamilyCanonicalize (Q : Qsort) (theNodeFamilies : List NodeFamily) (s : Bytes)
    (rsaIdSelf : Option Digest20) (rejectMalformed : Bool) : Bytes :=
  let sl := splitMembers s
  let nf := nodefamilyParse Q theNodeFamilies s rsaIdSelf rejectMalformed
  let resultMembers := sl.filter isUnrecognized ++ splitMembers (nodefamilyFormat nf)
  [byte ' '].intercalate (Q.sort strcmp resultMembers)

/-! ## Duplicates -/

section Duplicates

variable {l front back : List Bytes} {x y : Bytes} {familyMembers : List Bytes} {nMembers i : ℕ}

/-- In front of the other in a strictly sorted array. -/
def MemberBefore (a b : Bytes) : Prop := strcmp a b < 0

instance : Std.Irrefl MemberBefore where
  irrefl a := by
    rw [MemberBefore, strcmp_self]
    exact lt_irrefl 0

instance : Std.Antisymm MemberBefore where
  antisymm a b h h' := by
    rw [MemberBefore] at h h'
    rw [strcmp_swap a b] at h'
    omega

/-- One more entry that differs from the last. -/
theorem pairwise_before_snoc (hsorted : (front ++ x :: y :: back).Pairwise fun a b => strcmp a b ≤ 0)
    (hstrict : (front ++ [x]).Pairwise MemberBefore) (hne : x ≠ y) :
    (front ++ [x] ++ [y]).Pairwise MemberBefore := by
  have hxy : MemberBefore x y := by
    have htail := (List.pairwise_append.mp hsorted).2.1
    have hle := List.rel_of_pairwise_cons htail List.mem_cons_self
    exact lt_of_le_of_ne hle (mt strcmp_eq_zero.mp hne)
  refine List.pairwise_append.mpr ⟨hstrict, List.pairwise_singleton _ _, fun z hz w hw => ?_⟩
  rw [List.mem_singleton.mp hw]
  rcases List.mem_append.mp hz with hz | hz
  · have hzx := (List.pairwise_append.mp hstrict).2.2 z hz x (List.mem_singleton_self x)
    exact strcmp_lt_trans hzx hxy
  · rw [List.mem_singleton.mp hz]
    exact hxy

/-- The two entries that are compared, and what is around them. -/
theorem exists_entries (hin : i + 1 < nMembers) (hn : nMembers ≤ familyMembers.length) :
    ∃ front x y back, familyMembers.take nMembers = front ++ x :: y :: back ∧ front.length = i
      ∧ familyMembers[i]? = some x ∧ familyMembers[i + 1]? = some y := by
  have hlen : (familyMembers.take nMembers).length = nMembers := by
    rw [List.length_take, Nat.min_eq_left hn]
  have hx : (familyMembers.take nMembers).drop i
      = familyMembers[i] :: (familyMembers.take nMembers).drop (i + 1) := by
    rw [List.drop_eq_getElem_cons (by omega), List.getElem_take]
  have hy : (familyMembers.take nMembers).drop (i + 1)
      = familyMembers[i + 1] :: (familyMembers.take nMembers).drop (i + 1 + 1) := by
    rw [List.drop_eq_getElem_cons (by omega), List.getElem_take]
  refine ⟨(familyMembers.take nMembers).take i, familyMembers[i], familyMembers[i + 1],
    (familyMembers.take nMembers).drop (i + 1 + 1), ?_, ?_, ?_, ?_⟩
  · rw [← hy, ← hx, List.take_append_drop]
  · rw [List.length_take]
    omega
  · exact List.getElem?_eq_getElem (by omega)
  · exact List.getElem?_eq_getElem (by omega)

/-- What `memmove` makes of the first entries. -/
theorem take_memmove (hn : nMembers ≤ familyMembers.length)
    (hl : familyMembers.take nMembers = front ++ x :: y :: back) (hi : front.length = i) :
    (familyMembers.take i ++ (familyMembers.drop (i + 1)).take (nMembers - i - 1)
      ++ familyMembers.drop (nMembers - 1)).take (nMembers - 1) = front ++ y :: back := by
  have hlen := congrArg List.length hl
  rw [List.length_take, Nat.min_eq_left hn, List.length_append, List.length_cons,
    List.length_cons] at hlen
  have hfirst : familyMembers.take i = front := by
    have h := congrArg (List.take i) hl
    rwa [List.take_take, Nat.min_eq_left (by omega), ← hi, List.take_left, hi] at h
  have hmoved : (familyMembers.drop (i + 1)).take (nMembers - i - 1) = y :: back := by
    have h := congrArg (List.drop (i + 1)) hl
    have hcut : front ++ x :: y :: back = (front ++ [x]) ++ y :: back := by simp
    rw [List.drop_take, hcut, List.drop_left' (by simp [hi])] at h
    exact h
  rw [hfirst, hmoved, List.take_left' (by simp; omega)]

/-- **What is left is strictly sorted and has the same entries**: up to the place that is looked at
the entries are strictly sorted. -/
theorem removeDuplicates_spec (hn : nMembers ≤ familyMembers.length)
    (hsorted : (familyMembers.take nMembers).Pairwise fun a b => strcmp a b ≤ 0)
    (hstrict : ((familyMembers.take nMembers).take (i + 1)).Pairwise MemberBefore) :
    ((removeDuplicates familyMembers nMembers i).1.take
        (removeDuplicates familyMembers nMembers i).2).Pairwise MemberBefore
      ∧ ∀ m, m ∈ (removeDuplicates familyMembers nMembers i).1.take
          (removeDuplicates familyMembers nMembers i).2 ↔ m ∈ familyMembers.take nMembers := by
  have hfront : ∀ (front back : List Bytes) (x : Bytes), front.length = i →
      (front ++ x :: back).take (i + 1) = front ++ [x] := by
    intro front back x hi
    have hcut : front ++ x :: back = (front ++ [x]) ++ back := by simp
    rw [hcut, List.take_left' (by simp [hi])]
  fun_induction removeDuplicates familyMembers nMembers i with
  | case1 familyMembers nMembers i hin heq ih =>
    obtain ⟨front, x, y, back, hl, hi, hx, hy⟩ := exists_entries hin hn
    rw [hx, hy, Option.some.injEq] at heq
    subst heq
    have hmoved := take_memmove hn hl hi
    rw [hmoved, hfront _ _ _ hi] at ih
    rw [hl] at hsorted hstrict ⊢
    rw [hfront _ _ _ hi] at hstrict
    have hlen := congrArg List.length hl
    rw [List.length_take, Nat.min_eq_left hn, List.length_append, List.length_cons,
      List.length_cons] at hlen
    have hsub : (front ++ x :: back).Sublist (front ++ x :: x :: back) :=
      List.Sublist.append_left (List.sublist_cons_self x (x :: back)) front
    obtain ⟨hpairwise, hmem⟩ := ih (by
        simp only [List.length_append, List.length_take, List.length_drop]
        omega) (hsorted.sublist hsub) hstrict hfront
    refine ⟨hpairwise, fun m => (hmem m).trans ?_⟩
    simp
  | case2 familyMembers nMembers i hin hne ih =>
    obtain ⟨front, x, y, back, hl, hi, hx, hy⟩ := exists_entries hin hn
    rw [hx, hy, Option.some.injEq] at hne
    rw [hl, hfront _ _ _ hi] at hstrict
    refine ih hn hsorted ?_ ?_
    · have hcut : front ++ x :: y :: back = (front ++ [x] ++ [y]) ++ back := by simp
      rw [hl] at hsorted ⊢
      rw [hcut, List.take_left' (by simp [hi])]
      exact pairwise_before_snoc hsorted hstrict hne
    · intro front back x hi
      have hcut : front ++ x :: back = (front ++ [x]) ++ back := by simp
      rw [hcut, List.take_left' (by simp [hi])]
  | case3 familyMembers nMembers i hout =>
    rw [List.take_of_length_le (by rw [List.length_take]; omega)] at hstrict
    exact ⟨hstrict, fun m => Iff.rfl⟩

end Duplicates

/-- An equal family has the same members. -/
theorem nodefamilyIntern_fst (theNodeFamilies : List NodeFamily) (tmp : NodeFamily) :
    (nodefamilyIntern theNodeFamilies tmp).1 = tmp := by
  unfold nodefamilyIntern
  split
  · rename_i found hfound
    simpa using List.find?_some hfound
  · rfl

section Members

variable (Q : Qsort) (theNodeFamilies : List NodeFamily) {members : List Bytes}
  {rsaIdSelf : Option Digest20}

/-- The entries of a family: what is recognized, and the relay itself. -/
def IsEntry (members : List Bytes) (rsaIdSelf : Option Digest20) (m : Bytes) : Prop :=
  (∃ cp ∈ members, memberOf cp = some m) ∨ ∃ id ∈ rsaIdSelf, m = rsaIdMember id.val

/-- **A family is the strictly sorted list of its entries.** -/
theorem nodefamilyFromMembers_spec : ∃ family map',
    nodefamilyFromMembers Q theNodeFamilies members rsaIdSelf false = some (family, map')
      ∧ family.members.Pairwise MemberBefore
      ∧ ∀ m, m ∈ family.members ↔ IsEntry members rsaIdSelf m := by
  let filled := members.filterMap memberOf ++ rsaIdSelf.toList.map fun id => rsaIdMember id.val
  have hgood : (members.filterMap memberOf).length ≤ members.length := List.length_filterMap_le _ _
  have hself : rsaIdSelf.toList.length = if rsaIdSelf.isSome then 1 else 0 := by
    cases rsaIdSelf <;> rfl
  have hcount : members.length + (if rsaIdSelf.isSome then 1 else 0)
      - (members.length - (members.filterMap memberOf).length) = filled.length := by
    simp only [filled, List.length_append, List.length_map, hself]
    omega
  have hentries : ∀ m, m ∈ filled ↔ IsEntry members rsaIdSelf m := by
    intro m
    simp only [filled, IsEntry, List.mem_append, List.mem_filterMap, List.mem_map,
      Option.mem_toList]
    exact or_congr_right (exists_congr fun id => and_congr_right fun _ => eq_comm)
  have htake : ∀ rest : List Bytes,
      (Q.sort strcmp filled ++ rest).take filled.length = Q.sort strcmp filled := fun rest =>
    List.take_left' Q.length_sort
  unfold nodefamilyFromMembers
  simp only [Bool.false_eq_true, and_false, if_false, hcount]
  rw [show members.filterMap memberOf ++ rsaIdSelf.toList.map (fun id => rsaIdMember id.val) = filled
    from rfl, List.take_left, List.drop_left]
  generalize hrest : List.replicate (members.length - (members.filterMap memberOf).length)
    (List.replicate 21 (0 : UInt8)) = rest
  have hone : ∀ l : List Bytes, (l.take (0 + 1)).Pairwise MemberBefore := fun l => by
    cases l <;> simp
  have hlong : filled.length ≤ (Q.sort strcmp filled ++ rest).length := by
    have hlen : (Q.sort strcmp filled).length = filled.length := Q.length_sort
    rw [← hlen]
    exact (List.sublist_append_left _ _).length_le
  obtain ⟨hpairwise, hmem⟩ := removeDuplicates_spec hlong
    (by rw [htake rest]; exact Q.sorted (consistentOn_strcmp filled)) (hone _)
  rw [htake] at hmem
  generalize removeDuplicates (Q.sort strcmp filled ++ rest) filled.length 0 = r at hpairwise hmem
  refine ⟨(nodefamilyIntern theNodeFamilies ⟨r.1.take r.2⟩).1,
    (nodefamilyIntern theNodeFamilies ⟨r.1.take r.2⟩).2, rfl, ?_, fun m => ?_⟩
  · rw [nodefamilyIntern_fst]
    exact hpairwise
  · rw [nodefamilyIntern_fst]
    exact (hmem m).trans (Q.mem_sort.trans (hentries m))

end Members

end Dittor.Tor

import Mathlib.Data.List.AList
import Dittor.Lib.Qsort
import Dittor.Tor.VoteParse

/-!
# Collating the votes (`dircollate.c`)

`dircollator_add_vote` puts every router entry of a vote into an array for its RSA identity and, if
it has an Ed25519 listing, into one for its pair of identities; an array has a place for every
vote. `dircollator_collate_by_ed25519` then goes over the pairs that more than half of the
authorities list, and over the RSA identities that are left.

The tables are hash tables, so what is gone over comes in some order (`HashOrder`). A vote that
lists an RSA identity once lists one pair for it, and two majorities have a vote in common: no two
pairs of one identity are ever both included, and the order does not matter.
-/

namespace Dittor.Tor

open Dittor.Lib

/-- A `vote_routerstatus_t *`: the place of an entry in the votes, and what is there. Of that only
`ed25519_reflects_consensus` changes, which is kept apart. -/
structure VrsPtr where
  voteNum : ℕ
  idx : ℕ
  vrs : VoteRouterStatus
deriving DecidableEq

/-- An array with a pointer, or `NULL`, for every vote. -/
abbrev VrsList := List (Option VrsPtr)

/-- `dircollator_t`, before it is collated. -/
structure Dircollator where
  nVotes : ℕ
  nAuthorities : ℕ
  nextVoteNum : ℕ
  byRsaSha1 : AList fun _ : Bytes => VrsList
  byBothIds : AList fun _ : Bytes × Bytes => VrsList
  /-- `ed25519_reflects_consensus` of the entry at a place of a vote. -/
  reflects : ℕ → ℕ → Bool

/-- `dircollator_t`, once it is collated. -/
structure Collated where
  allRsaSha1 : List Bytes
  byCollated : Bytes → Option VrsList
  reflects : ℕ → ℕ → Bool

/-! ## Adding votes -/

/-- Add a pointer to the array of a table for a key; `none` where the assertion fails. -/
def enterSlot {κ : Type} [DecidableEq κ] (nVotes : ℕ) (table : AList fun _ : κ => VrsList) (key : κ)
    (ptr : VrsPtr) : Option (AList fun _ : κ => VrsList) :=
  let vrsLst := (table.lookup key).getD (List.replicate nVotes none)
  if vrsLst[ptr.voteNum]? = some none then
    some (table.insert key (vrsLst.set ptr.voteNum (some ptr)))
  else none

namespace Dircollator

/-- `dircollator_add_routerstatus` -/
def addRouterstatus (dc : Dircollator) (ptr : VrsPtr) : Option Dircollator :=
  let reflects := fun i idx => if i = ptr.voteNum ∧ idx = ptr.idx then false else dc.reflects i idx
  match enterSlot dc.nVotes dc.byRsaSha1 ptr.vrs.identityDigest ptr with
  | none => none
  | some byRsaSha1 =>
    if !ptr.vrs.hasEd25519Listing then
      some { dc with byRsaSha1 := byRsaSha1, reflects := reflects }
    else
      match enterSlot dc.nVotes dc.byBothIds (ptr.vrs.identityDigest, ptr.vrs.ed25519Id) ptr with
      | none => none
      | some byBothIds =>
        some { dc with byRsaSha1 := byRsaSha1, byBothIds := byBothIds, reflects := reflects }

/-- `dircollator_new`, with the flags the entries have before. -/
def new (nVotes nAuthorities : ℕ) (reflects : ℕ → ℕ → Bool) : Option Dircollator :=
  if nVotes ≤ nAuthorities then some ⟨nVotes, nAuthorities, 0, ∅, ∅, reflects⟩ else none

end Dircollator

/-- The entries of a vote. -/
def votePtrs (voteNum : ℕ) (v : List VoteRouterStatus) : List VrsPtr :=
  v.zipIdx.map fun entry => ⟨voteNum, entry.2, entry.1⟩

/-- The entries of all votes from a number on. -/
def ptrsFrom (start : ℕ) (votes : List (List VoteRouterStatus)) : List VrsPtr :=
  (votes.zipIdx start).flatMap fun vote => votePtrs vote.2 vote.1

namespace Dircollator

/-- `dircollator_add_vote`, with the `routerstatus_list` of the vote. -/
def addVote (dc : Dircollator) (v : List VoteRouterStatus) : Option Dircollator :=
  if dc.nextVoteNum < dc.nVotes then
    (votePtrs dc.nextVoteNum v).foldlM addRouterstatus
      { dc with nextVoteNum := dc.nextVoteNum + 1 }
  else none

/-- A collator with all the votes. -/
def ofVotes (nAuthorities : ℕ) (votes : List (List VoteRouterStatus)) (reflects : ℕ → ℕ → Bool) :
    Option Dircollator :=
  (new votes.length nAuthorities reflects).bind (votes.foldlM addVote)

end Dircollator

/-! ## Collating -/

/-- How many votes have a pointer in the array. -/
def listedBy (vrsLst : VrsList) : ℕ := vrsLst.countP Option.isSome

/-- The array of a pair, with the entries that have no Ed25519 listing from the array of its RSA
identity. -/
def addUnlisted (vrsLst vrsLst2 : VrsList) : VrsList :=
  List.zipWith (fun slot slot2 => slot <|> slot2.filter fun ptr => !ptr.vrs.hasEd25519Listing)
    vrsLst vrsLst2

/-- The flags, set on every entry of the array. -/
def setReflects (reflects : ℕ → ℕ → Bool) (vrsLst : VrsList) (i idx : ℕ) : Bool :=
  reflects i idx ||
    vrsLst.any fun slot => slot.any fun ptr => ptr.voteNum = i && ptr.idx = idx

namespace Dircollator

/-- The orders in which the hash tables are gone over. -/
structure HashOrder (dc : Dircollator) where
  pairs : List (Σ _ : Bytes × Bytes, VrsList)
  rsas : List (Σ _ : Bytes, VrsList)
  pairs_perm : pairs.Perm dc.byBothIds.entries
  rsas_perm : rsas.Perm dc.byRsaSha1.entries

/-- The first loop of `dircollator_collate_by_ed25519`. -/
def collatePair (dc : Dircollator) (r : Collated) (ent : Σ _ : Bytes × Bytes, VrsList) :
    Option Collated :=
  if listedBy ent.2 ≤ dc.nAuthorities / 2 then some r
  else
    match dc.byRsaSha1.lookup ent.1.1 with
    | none => none
    | some vrsLst2 =>
      some { allRsaSha1 := r.allRsaSha1 ++ [ent.1.1]
             byCollated := Function.update r.byCollated ent.1.1
               (some (addUnlisted ent.2 vrsLst2))
             reflects := setReflects r.reflects ent.2 }

/-- The second loop. -/
def collateRsa (dc : Dircollator) (r : Collated) (ent : Σ _ : Bytes, VrsList) : Collated :=
  if (r.byCollated ent.1).isSome then r
  else if listedBy ent.2 ≤ dc.nAuthorities / 2 then r
  else { r with allRsaSha1 := r.allRsaSha1 ++ [ent.1]
                byCollated := Function.update r.byCollated ent.1 (some ent.2) }

/-- `dircollator_collate`; `compare_digests_` is `memcmp` of digests of the same length. -/
def collate (Q : Qsort) (dc : Dircollator) (order : HashOrder dc) : Option Collated :=
  (order.pairs.foldlM (collatePair dc) ⟨[], fun _ => none, dc.reflects⟩).map fun r =>
    let r := order.rsas.foldl (collateRsa dc) r
    { r with allRsaSha1 := Q.sort strcmp r.allRsaSha1 }

end Dircollator

/-! ## What the tables have -/

/-- The array has the entries that meet a condition, each at the place of its vote. -/
structure ArrayOf (nVotes : ℕ) (ptrs : List VrsPtr) (sel : VrsPtr → Prop) (vrsLst : VrsList) :
    Prop where
  length : vrsLst.length = nVotes
  slot : ∀ i ptr, vrsLst[i]? = some (some ptr) ↔ ptr.voteNum = i ∧ ptr ∈ ptrs ∧ sel ptr

namespace ArrayOf

variable {nVotes : ℕ} {ptrs : List VrsPtr} {sel : VrsPtr → Prop} {vrsLst vrsLst' : VrsList}

theorem ext (h : ArrayOf nVotes ptrs sel vrsLst) (h' : ArrayOf nVotes ptrs sel vrsLst') :
    vrsLst = vrsLst' := by
  have hslot : ∀ i ptr, vrsLst[i]? = some (some ptr) ↔ vrsLst'[i]? = some (some ptr) :=
    fun i ptr => (h.slot i ptr).trans (h'.slot i ptr).symm
  refine List.ext_getElem (h.length.trans h'.length.symm) fun i hi hi' => ?_
  have hiff := hslot i
  rw [List.getElem?_eq_getElem hi, List.getElem?_eq_getElem hi'] at hiff
  refine Option.ext fun ptr => ?_
  simpa using hiff ptr

/-- An array without entries. -/
theorem replicate (hnone : ∀ ptr ∈ ptrs, ¬sel ptr) :
    ArrayOf nVotes ptrs sel (List.replicate nVotes none) where
  length := List.length_replicate
  slot i ptr := by
    constructor
    · intro h
      have := List.mem_of_getElem? h
      rw [List.mem_replicate] at this
      exact absurd this.2 (by simp)
    · rintro ⟨-, hmem, hsel⟩
      exact absurd hsel (hnone ptr hmem)

/-- A place is free unless an entry of that vote is there. -/
theorem free (h : ArrayOf nVotes ptrs sel vrsLst) {i : ℕ} (hi : i < nVotes)
    (hfree : ∀ ptr ∈ ptrs, sel ptr → ptr.voteNum ≠ i) : vrsLst[i]? = some none := by
  rw [List.getElem?_eq_getElem (by rw [h.length]; exact hi), Option.some_inj]
  refine Option.eq_none_iff_forall_ne_some.mpr fun ptr hptr => ?_
  have hlook : vrsLst[i]? = some (some ptr) := by
    rw [List.getElem?_eq_getElem (by rw [h.length]; exact hi), hptr]
  obtain ⟨hnum, hmem, hsel⟩ := (h.slot i ptr).mp hlook
  exact hfree ptr hmem hsel hnum

/-- An entry put into a free place. -/
theorem set (h : ArrayOf nVotes ptrs sel vrsLst) {new : VrsPtr} (hsel : sel new)
    (hnew : new.voteNum < nVotes) (hfree : ∀ ptr ∈ ptrs, sel ptr → ptr.voteNum ≠ new.voteNum) :
    ArrayOf nVotes (ptrs ++ [new]) sel (vrsLst.set new.voteNum (some new)) where
  length := by rw [List.length_set, h.length]
  slot i ptr := by
    rw [List.getElem?_set]
    by_cases hi : new.voteNum = i
    · rw [if_pos hi, if_pos (by rw [h.length]; omega), Option.some_inj, Option.some_inj]
      constructor
      · rintro rfl
        exact ⟨hi, by simp, hsel⟩
      · rintro ⟨hnum, hmem, hptr⟩
        rcases List.mem_append.mp hmem with hmem | hmem
        · exact absurd (hnum.trans hi.symm) (hfree ptr hmem hptr)
        · exact (List.mem_singleton.mp hmem).symm
    · rw [if_neg hi, h.slot, List.mem_append, List.mem_singleton]
      refine and_congr_right fun hnum => and_congr_left fun _ => ?_
      refine ⟨.inl, fun hmem => hmem.resolve_right ?_⟩
      rintro rfl
      exact hi hnum

/-- An entry the array is not about. -/
theorem skip (h : ArrayOf nVotes ptrs sel vrsLst) {new : VrsPtr} (hsel : ¬sel new) :
    ArrayOf nVotes (ptrs ++ [new]) sel vrsLst where
  length := h.length
  slot i ptr := by
    rw [h.slot, List.mem_append, List.mem_singleton]
    refine and_congr_right fun _ => ⟨fun hptr => ⟨.inl hptr.1, hptr.2⟩, ?_⟩
    rintro ⟨hmem | rfl, hptr⟩
    · exact ⟨hmem, hptr⟩
    · exact absurd hptr hsel

end ArrayOf

/-- A table has an array for every key of an entry, and its arrays have the entries of their key. -/
structure Indexes {κ : Type} [DecidableEq κ] (nVotes : ℕ) (table : AList fun _ : κ => VrsList)
    (key : VrsPtr → Option κ) (ptrs : List VrsPtr) : Prop where
  array : ∀ k vrsLst, table.lookup k = some vrsLst →
    ArrayOf nVotes ptrs (fun ptr => key ptr = some k) vrsLst
  has : ∀ ptr ∈ ptrs, ∀ k, key ptr = some k → (table.lookup k).isSome

namespace Indexes

variable {κ : Type} [DecidableEq κ] {nVotes : ℕ} {table : AList fun _ : κ => VrsList}
variable {key : VrsPtr → Option κ} {ptrs : List VrsPtr}

theorem skip (h : Indexes nVotes table key ptrs) {new : VrsPtr} (hkey : key new = none) :
    Indexes nVotes table key (ptrs ++ [new]) where
  array k vrsLst hlook := (h.array k vrsLst hlook).skip (by rw [hkey]; simp)
  has ptr hptr k hk := by
    rcases List.mem_append.mp hptr with hptr | hptr
    · exact h.has ptr hptr k hk
    · rw [List.mem_singleton.mp hptr, hkey] at hk
      cases hk

theorem enterSlot (h : Indexes nVotes table key ptrs) {new : VrsPtr} {k : κ}
    (hkey : key new = some k) (hnew : new.voteNum < nVotes)
    (hfree : ∀ ptr ∈ ptrs, key ptr = some k → ptr.voteNum ≠ new.voteNum) :
    ∃ table', Tor.enterSlot nVotes table k new = some table' ∧
      Indexes nVotes table' key (ptrs ++ [new]) := by
  have harray : ArrayOf nVotes ptrs (fun ptr => key ptr = some k)
      ((table.lookup k).getD (List.replicate nVotes none)) := by
    cases hlook : table.lookup k with
    | some vrsLst => exact h.array k vrsLst hlook
    | none =>
      refine ArrayOf.replicate fun ptr hptr hk => ?_
      have := h.has ptr hptr k hk
      rw [hlook] at this
      cases this
  refine ⟨_, if_pos (harray.free hnew hfree), ?_, ?_⟩
  · intro k' vrsLst hlook
    by_cases hk : k' = k
    · subst hk
      rw [AList.lookup_insert, Option.some_inj] at hlook
      exact hlook ▸ harray.set hkey hnew hfree
    · rw [AList.lookup_insert_ne hk] at hlook
      have hother : ¬key new = some k' := by
        rw [hkey, Option.some_inj]
        exact fun heq => hk heq.symm
      exact (h.array k' vrsLst hlook).skip hother
  · intro ptr hptr k' hk'
    by_cases hk : k' = k
    · subst hk
      rw [AList.lookup_insert]
      rfl
    · rw [AList.lookup_insert_ne hk]
      rcases List.mem_append.mp hptr with hptr | hptr
      · exact h.has ptr hptr k' hk'
      · rw [List.mem_singleton.mp hptr, hkey, Option.some_inj] at hk'
        exact absurd hk'.symm hk

end Indexes

/-- The key of an entry in `by_both_ids`. -/
def bothIds (ptr : VrsPtr) : Option (Bytes × Bytes) :=
  if ptr.vrs.hasEd25519Listing then some (ptr.vrs.identityDigest, ptr.vrs.ed25519Id) else none

/-- The collator has these entries, with their flags clear. -/
structure Collects (dc : Dircollator) (ptrs : List VrsPtr) : Prop where
  rsa : Indexes dc.nVotes dc.byRsaSha1 (fun ptr => some ptr.vrs.identityDigest) ptrs
  both : Indexes dc.nVotes dc.byBothIds bothIds ptrs
  clear : ∀ ptr ∈ ptrs, dc.reflects ptr.voteNum ptr.idx = false

/-- Two entries of one vote have different RSA identities. -/
def Apart (p q : VrsPtr) : Prop :=
  p.voteNum = q.voteNum → p.vrs.identityDigest ≠ q.vrs.identityDigest

namespace Collects

variable {dc : Dircollator} {ptrs : List VrsPtr}

theorem addRouterstatus (h : Collects dc ptrs) {new : VrsPtr} (hnew : new.voteNum < dc.nVotes)
    (hapart : ∀ ptr ∈ ptrs, Apart ptr new) :
    ∃ dc', dc.addRouterstatus new = some dc' ∧ Collects dc' (ptrs ++ [new]) ∧
      dc'.nVotes = dc.nVotes ∧ dc'.nAuthorities = dc.nAuthorities ∧
      dc'.nextVoteNum = dc.nextVoteNum := by
  have hclear : ∀ ptr ∈ ptrs ++ [new],
      (if ptr.voteNum = new.voteNum ∧ ptr.idx = new.idx then false
        else dc.reflects ptr.voteNum ptr.idx) = false := by
    intro ptr hptr
    split
    · rfl
    · next hne =>
      rcases List.mem_append.mp hptr with hptr | hptr
      · exact h.clear ptr hptr
      · rw [List.mem_singleton.mp hptr] at hne
        exact absurd ⟨rfl, rfl⟩ hne
  have rsaKey : ∀ ptr : VrsPtr, (fun ptr : VrsPtr => some ptr.vrs.identityDigest) ptr =
      some ptr.vrs.identityDigest := fun _ => rfl
  obtain ⟨byRsaSha1, hrsa, hrsaIndexes⟩ := h.rsa.enterSlot (rsaKey new) hnew
    fun ptr hptr hkey hnum => hapart ptr hptr hnum (Option.some_inj.mp hkey)
  unfold Dircollator.addRouterstatus
  simp only [hrsa]
  cases hed : new.vrs.hasEd25519Listing with
  | false =>
    exact ⟨_, rfl, ⟨hrsaIndexes, h.both.skip (by simp [bothIds, hed]), hclear⟩, rfl, rfl, rfl⟩
  | true =>
    have hkey : bothIds new = some (new.vrs.identityDigest, new.vrs.ed25519Id) := by
      simp [bothIds, hed]
    obtain ⟨byBothIds, hboth, hbothIndexes⟩ := h.both.enterSlot hkey hnew (by
      intro ptr hptr hptrkey hnum
      rw [bothIds] at hptrkey
      split at hptrkey
      · rw [Option.some_inj, Prod.mk.injEq] at hptrkey
        exact hapart ptr hptr hnum hptrkey.1
      · cases hptrkey)
    simp only [hboth, Bool.not_true, Bool.false_eq_true, if_false]
    exact ⟨_, rfl, ⟨hrsaIndexes, hbothIndexes, hclear⟩, rfl, rfl, rfl⟩

theorem addRouterstatuses : ∀ (news : List VrsPtr) {dc : Dircollator} {ptrs : List VrsPtr},
    Collects dc ptrs → (∀ new ∈ news, new.voteNum < dc.nVotes) →
    (ptrs ++ news).Pairwise Apart →
    ∃ dc', news.foldlM Dircollator.addRouterstatus dc = some dc' ∧ Collects dc' (ptrs ++ news) ∧
      dc'.nVotes = dc.nVotes ∧ dc'.nAuthorities = dc.nAuthorities ∧
      dc'.nextVoteNum = dc.nextVoteNum := by
  intro news
  induction news with
  | nil =>
    intro dc ptrs h hnews hapart
    exact ⟨dc, rfl, by rwa [List.append_nil], rfl, rfl, rfl⟩
  | cons new news ih =>
    intro dc ptrs h hnews hapart
    rw [List.append_cons] at hapart ⊢
    have hnew : ∀ ptr ∈ ptrs, Apart ptr new := fun ptr hptr =>
      (List.pairwise_append.mp (List.pairwise_append.mp hapart).1).2.2 ptr hptr new (by simp)
    obtain ⟨dc₁, hadd, hcollects, hnv, hna, hnext⟩ :=
      h.addRouterstatus (hnews new (by simp)) hnew
    obtain ⟨dc₂, hrun, hcollects₂, hnv₂, hna₂, hnext₂⟩ := ih hcollects
      (fun n hn => by rw [hnv]; exact hnews n (List.mem_cons_of_mem _ hn)) hapart
    refine ⟨dc₂, ?_, hcollects₂, hnv₂.trans hnv, hna₂.trans hna, hnext₂.trans hnext⟩
    rw [List.foldlM_cons, hadd]
    exact hrun

theorem addVotes : ∀ (votes : List (List VoteRouterStatus)) {dc : Dircollator}
    {ptrs : List VrsPtr}, Collects dc ptrs → dc.nextVoteNum + votes.length ≤ dc.nVotes →
    (ptrs ++ ptrsFrom dc.nextVoteNum votes).Pairwise Apart →
    ∃ dc', votes.foldlM Dircollator.addVote dc = some dc' ∧
      Collects dc' (ptrs ++ ptrsFrom dc.nextVoteNum votes) ∧
      dc'.nVotes = dc.nVotes ∧ dc'.nAuthorities = dc.nAuthorities := by
  intro votes
  induction votes with
  | nil =>
    intro dc ptrs h hle hapart
    exact ⟨dc, rfl, by simpa [ptrsFrom] using h, rfl, rfl⟩
  | cons v votes ih =>
    intro dc ptrs h hle hapart
    rw [List.length_cons] at hle
    have hsplit : ptrsFrom dc.nextVoteNum (v :: votes) =
        votePtrs dc.nextVoteNum v ++ ptrsFrom (dc.nextVoteNum + 1) votes := rfl
    rw [hsplit, ← List.append_assoc] at hapart ⊢
    have hnums : ∀ new ∈ votePtrs dc.nextVoteNum v, new.voteNum < dc.nVotes := by
      intro new hnew
      obtain ⟨entry, -, rfl⟩ := List.mem_map.mp hnew
      show dc.nextVoteNum < dc.nVotes
      omega
    have hnext : Collects { dc with nextVoteNum := dc.nextVoteNum + 1 } ptrs :=
      ⟨h.rsa, h.both, h.clear⟩
    obtain ⟨dc₁, hadd, hcollects, hnv, hna, hnext₁⟩ :=
      addRouterstatuses _ hnext hnums (List.pairwise_append.mp hapart).1
    rw [← show dc₁.nextVoteNum = dc.nextVoteNum + 1 from hnext₁] at hapart ⊢
    obtain ⟨dc₂, hrun, hcollects₂, hnv₂, hna₂⟩ := ih hcollects
      (by rw [hnext₁, hnv]; show dc.nextVoteNum + 1 + votes.length ≤ dc.nVotes; omega) hapart
    refine ⟨dc₂, ?_, hcollects₂, hnv₂.trans hnv, hna₂.trans hna⟩
    have hfirst : dc.addVote v = some dc₁ := by
      rw [Dircollator.addVote, if_pos (by omega)]
      exact hadd
    rw [List.foldlM_cons, hfirst]
    exact hrun

end Collects

/-! ## The entries of the votes -/

/-- The entries of all votes. -/
abbrev ptrsOf (votes : List (List VoteRouterStatus)) : List VrsPtr := ptrsFrom 0 votes

theorem mem_ptrsOf {votes : List (List VoteRouterStatus)} {ptr : VrsPtr} :
    ptr ∈ ptrsOf votes ↔ ∃ v, votes[ptr.voteNum]? = some v ∧ v[ptr.idx]? = some ptr.vrs := by
  rw [ptrsOf, ptrsFrom, List.mem_flatMap]
  constructor
  · rintro ⟨⟨v, i⟩, hv, hptr⟩
    obtain ⟨⟨vrs, idx⟩, hvrs, rfl⟩ := List.mem_map.mp hptr
    exact ⟨v, List.mem_zipIdx_iff_getElem?.mp hv, List.mem_zipIdx_iff_getElem?.mp hvrs⟩
  · rintro ⟨v, hv, hvrs⟩
    exact ⟨(v, ptr.voteNum), List.mem_zipIdx_iff_getElem?.mpr hv,
      List.mem_map.mpr ⟨(ptr.vrs, ptr.idx), List.mem_zipIdx_iff_getElem?.mpr hvrs, rfl⟩⟩

theorem apart_ptrsOf {votes : List (List VoteRouterStatus)}
    (hvotes : ∀ v ∈ votes, (v.map VoteRouterStatus.identityDigest).Nodup) :
    (ptrsOf votes).Pairwise Apart := by
  rw [ptrsOf, ptrsFrom, List.pairwise_flatMap]
  constructor
  · rintro ⟨v, i⟩ hv
    have hnodup := hvotes v (List.fst_mem_of_mem_zipIdx hv)
    rw [← List.zipIdx_map_fst 0 v, List.map_map, List.Nodup, List.pairwise_map] at hnodup
    rw [votePtrs, List.pairwise_map]
    refine hnodup.imp ?_
    intro a b hne _
    exact hne
  · have hnums : (votes.zipIdx.map Prod.snd).Pairwise (· < ·) := by
      rw [List.zipIdx_map_snd]
      exact List.pairwise_lt_range'
    rw [List.pairwise_map] at hnums
    refine hnums.imp ?_
    rintro ⟨v, i⟩ ⟨w, j⟩ hlt p hp q hq hnum
    obtain ⟨_, -, rfl⟩ := List.mem_map.mp hp
    obtain ⟨_, -, rfl⟩ := List.mem_map.mp hq
    exact absurd hnum (Nat.ne_of_lt hlt)

/-- An array of a condition on what is listed counts the votes that list such an entry. -/
theorem ArrayOf.listedBy_eq {votes : List (List VoteRouterStatus)} {sel : VoteRouterStatus → Bool}
    {vrsLst : VrsList}
    (h : ArrayOf votes.length (ptrsOf votes) (fun ptr => sel ptr.vrs = true) vrsLst) :
    listedBy vrsLst = votes.countP fun v => v.any sel := by
  have hmap : vrsLst.map Option.isSome = votes.map fun v => v.any sel := by
    refine List.ext_getElem (by rw [List.length_map, List.length_map, h.length]) ?_
    intro i hi hi'
    rw [List.length_map] at hi hi'
    rw [List.getElem_map, List.getElem_map, Bool.eq_iff_iff, List.any_eq_true,
      Option.isSome_iff_exists]
    have hslot : ∀ ptr, vrsLst[i] = some ptr ↔ ptr.voteNum = i ∧ ptr ∈ ptrsOf votes ∧
        sel ptr.vrs = true := by
      intro ptr
      rw [← h.slot i ptr, List.getElem?_eq_getElem hi, Option.some_inj]
    constructor
    · rintro ⟨ptr, hptr⟩
      obtain ⟨rfl, hmem, hsel⟩ := (hslot ptr).mp hptr
      obtain ⟨v, hv, hvrs⟩ := mem_ptrsOf.mp hmem
      rw [List.getElem?_eq_getElem hi', Option.some_inj] at hv
      exact ⟨ptr.vrs, hv ▸ List.mem_of_getElem? hvrs, hsel⟩
    · rintro ⟨vrs, hvrs, hsel⟩
      obtain ⟨idx, hidx⟩ := List.getElem?_of_mem hvrs
      exact ⟨⟨i, idx, vrs⟩, (hslot _).mpr ⟨rfl,
        mem_ptrsOf.mpr ⟨votes[i], List.getElem?_eq_getElem hi', hidx⟩, hsel⟩⟩
  have hcount := congrArg (List.countP id) hmap
  rwa [List.countP_map, List.countP_map] at hcount

end Dittor.Tor

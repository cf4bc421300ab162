import Mathlib
import Dittor.Lib.Checks
import Dittor.Lib.Classes
import Dittor.Lib.FirstGreatest
import Dittor.Lib.Signed
import Dittor.Tor.VoteParse

/-!
# The vote on a router status (`dirvote.c`)

`compute_routerstatus_consensus` sorts the entries of a relay with `compare_vote_rs` and walks over
them: of the runs of entries that it equates the longest one wins, the more recent one of two that
are as long, and the first one of two that are also as recent. The runs are the classes of entries
that agree on all that is compared (`compareVoteRs_eq_zero`), in the order of their digests, so the
class that wins is that of `MostVoted`. Within it the alternative address and the digest of the
microdescriptor are voted on in the same way.

The fields of time and ports are compared by the sign of a difference that may wrap; in the range
of what the parser gives it does not (`cmpField_eq`).
-/

namespace Dittor.Tor

open Dittor.Lib

/-! ## Comparisons -/

/-- `CMP_FIELD`: the difference in so many bits, read as a signed number. -/
def cmpField (bits : ℕ) (aval bval : ℤ) : ℤ :=
  let u := (bval - aval) % 2 ^ bits
  let r2 := if u < 2 ^ (bits - 1) then u else u - 2 ^ bits
  if r2 < 0 then -1 else if 0 < r2 then 1 else 0

/-- `compare_vote_rs` -/
def compareVoteRs (a b : VoteRouterStatus) : ℤ :=
  thenBy (strcmp a.identityDigest b.identityDigest) <|
  thenBy (strcmp a.descriptorDigest b.descriptorDigest) <|
  thenBy (cmpField 64 a.publishedOn b.publishedOn) <|
  thenBy (strcmp b.nickname a.nickname) <|
  thenBy (cmpNum a.ipv4Addr b.ipv4Addr) <|
  thenBy (cmpField 32 a.ipv4Orport b.ipv4Orport) <|
  thenBy (cmpField 32 a.ipv4Dirport b.ipv4Dirport) 0

/-- `compare_orports_` of addresses of IPv6 -/
def compareOrports (a b : Bytes × ℕ) : ℤ :=
  thenBy (strcmp a.1 b.1) <| thenBy ((b.2 : ℤ) - a.2) 0

/-! ## The digest of a microdescriptor -/

/-- The number and what follows it, if one of the numbers in front of a line is the method. -/
def findMethodNumber (mstr : Bytes) : ℕ → Bytes → Option Bytes
  | 0, _ => none
  | fuel + 1, cp =>
    let num := cp.takeWhile isDigit
    if num.length = mstr.length ∧ cp.take mstr.length = mstr then some cp
    else if num.length = 0 then none
    else
      match cp.drop num.length with
      | [] => none
      | b :: rest => if b ≠ byte ',' then none else findMethodNumber mstr fuel rest

/-- `strstr`, and what follows the text that is found -/
def afterText (text : Bytes) : Bytes → Option Bytes
  | [] => if text = [] then some [] else none
  | b :: s => if text.isPrefixOf (b :: s) then some ((b :: s).drop text.length) else afterText text s

/-- `vote_routerstatus_find_microdesc_hash` with `DIGEST_SHA256`; only the first line for the
method is looked at. -/
def voteRouterstatusFindMicrodescHash (vrs : VoteRouterStatus) (method : ℤ) : Option Bytes := do
  let cp ← vrs.microdesc.findSome? fun line =>
    findMethodNumber (decimalInt method) (line.length + 1) line
  let digest ← afterText (cstring " sha256=") cp
  digestFromBase64 32 (digest.take 43)

/-! ## The winner -/

/-- The variables of the loop over the sorted entries. -/
structure RsScan where
  most : Option VoteRouterStatus := none
  mostN : ℕ := 0
  mostPublished : ℤ := 0
  cur : Option VoteRouterStatus := none
  curN : ℕ := 0

/-- The run that ends is the best so far. -/
def RsScan.ahead (scan : RsScan) (cur : VoteRouterStatus) : Prop :=
  scan.curN > scan.mostN ∨ scan.curN = scan.mostN ∧ cur.publishedOn > scan.mostPublished

instance (scan : RsScan) (cur : VoteRouterStatus) : Decidable (scan.ahead cur) :=
  inferInstanceAs (Decidable (_ ∨ _))

/-- The end of a run. -/
def RsScan.close (scan : RsScan) : RsScan :=
  match scan.cur with
  | none => scan
  | some cur =>
    if scan.ahead cur then
      { scan with most := some cur, mostN := scan.curN, mostPublished := cur.publishedOn }
    else scan

/-- One round of the loop. -/
def RsScan.step (scan : RsScan) (rs : VoteRouterStatus) : RsScan :=
  if scan.cur.any (fun cur => compareVoteRs cur rs = 0) then { scan with curN := scan.curN + 1 }
  else { scan.close with cur := some rs, curN := 1 }

/-- What is found. -/
structure RouterstatusConsensus where
  most : VoteRouterStatus
  bestAltOrport : Option (Bytes × ℕ)
  microdescDigest : Option Bytes

/-- The address and port of IPv6 of an entry, if both are there. -/
def altOrport (rs : VoteRouterStatus) : Option (Bytes × ℕ) :=
  rs.ipv6.filter fun ap => !memIsZero ap.1 && ap.2 ≠ 0

/-- `compute_routerstatus_consensus`; `none` where `most` is asserted. -/
def computeRouterstatusConsensus (Q : Qsort) (votes : List VoteRouterStatus)
    (consensusMethod : ℤ) : Option RouterstatusConsensus := do
  let votes := Q.sort compareVoteRs votes
  let most ← (votes.foldl RsScan.step {}).close.most
  let altOrports := (votes.filter fun rs => compareVoteRs most rs = 0).filterMap altOrport
  let digests := (votes.filter fun rs => compareVoteRs rs most = 0).filterMap fun rs =>
    voteRouterstatusFindMicrodescHash rs consensusMethod
  return {
    most := most
    bestAltOrport := mostFrequent Q compareOrports altOrports
    microdescDigest := mostFrequent Q strcmp digests }

/-! ## The comparison orders the entries -/

/-- Times that `parse_iso_time` gives, and ports of 16 bits. -/
structure VoteRouterStatus.InRange (rs : VoteRouterStatus) : Prop where
  published : 0 ≤ rs.publishedOn ∧ rs.publishedOn < 2 ^ 63
  orport : rs.ipv4Orport ≤ 65535
  dirport : rs.ipv4Dirport ≤ 65535

/-- The entries agree on all that is compared, of one relay. -/
structure SameRouterstatus (a b : VoteRouterStatus) : Prop where
  descriptor : a.descriptorDigest = b.descriptorDigest
  published : a.publishedOn = b.publishedOn
  nickname : a.nickname = b.nickname
  address : a.ipv4Addr = b.ipv4Addr
  orport : a.ipv4Orport = b.ipv4Orport
  dirport : a.ipv4Dirport = b.ipv4Dirport

section Compare

variable {bits : ℕ} {aval bval : ℤ} {a b : VoteRouterStatus}

/-- A difference that fits has the sign of the difference. -/
theorem cmpField_eq (hbits : 1 ≤ bits) (hlo : -2 ^ (bits - 1) < bval - aval)
    (hhi : bval - aval < 2 ^ (bits - 1)) : cmpField bits aval bval = cmpNum bval aval := by
  have hdouble : (2 : ℤ) ^ bits = 2 * 2 ^ (bits - 1) := by
    rw [← pow_succ', Nat.sub_add_cancel hbits]
  unfold cmpField
  rw [hdouble]
  generalize (2 : ℤ) ^ (bits - 1) = p at hlo hhi
  dsimp only
  have hr2 : (if (bval - aval) % (2 * p) < p then (bval - aval) % (2 * p)
      else (bval - aval) % (2 * p) - 2 * p) = bval - aval := by
    rcases lt_or_ge (bval - aval) 0 with hneg | hpos
    · have hmod : (bval - aval) % (2 * p) = bval - aval + 2 * p := by
        rw [← Int.add_emod_right]
        exact Int.emod_eq_of_lt (by omega) (by omega)
      rw [hmod, if_neg (by omega)]
      omega
    · rw [Int.emod_eq_of_lt hpos (by omega), if_pos hhi]
  rw [hr2]
  unfold cmpNum
  split_ifs <;> omega

theorem orders_cmpField {f : VoteRouterStatus → ℤ} (hbits : 1 ≤ bits)
    (hf : ∀ rs : VoteRouterStatus, rs.InRange → 0 ≤ f rs ∧ f rs < 2 ^ (bits - 1)) :
    Orders (fun a b => cmpField bits (f a) (f b)) {rs | rs.InRange} := by
  have h : Orders (fun a b : VoteRouterStatus => cmpNum (f b) (f a)) {rs | rs.InRange} :=
    ((orders_cmpNum.reverse).comap f).mono fun _ _ => trivial
  refine h.congr fun a ha b hb => ?_
  have hfa := hf a ha
  have hfb := hf b hb
  exact cmpField_eq hbits (by omega) (by omega)

theorem cmpField_eq_zero {f : VoteRouterStatus → ℤ} (hbits : 1 ≤ bits)
    (hf : ∀ rs : VoteRouterStatus, rs.InRange → 0 ≤ f rs ∧ f rs < 2 ^ (bits - 1))
    (ha : a.InRange) (hb : b.InRange) : cmpField bits (f a) (f b) = 0 ↔ f a = f b := by
  have hfa := hf a ha
  have hfb := hf b hb
  rw [cmpField_eq hbits (by omega) (by omega), cmpNum_eq_zero, eq_comm]

theorem range_published {rs : VoteRouterStatus} (h : rs.InRange) :
    0 ≤ rs.publishedOn ∧ rs.publishedOn < 2 ^ (64 - 1) := h.published

theorem range_orport {rs : VoteRouterStatus} (h : rs.InRange) :
    0 ≤ (rs.ipv4Orport : ℤ) ∧ (rs.ipv4Orport : ℤ) < 2 ^ (32 - 1) := by
  have := h.orport
  omega

theorem range_dirport {rs : VoteRouterStatus} (h : rs.InRange) :
    0 ≤ (rs.ipv4Dirport : ℤ) ∧ (rs.ipv4Dirport : ℤ) < 2 ^ (32 - 1) := by
  have := h.dirport
  omega

theorem orders_compareVoteRs : Orders compareVoteRs {rs | rs.InRange} := by
  have htext : ∀ f : VoteRouterStatus → Bytes, Orders (fun a b => strcmp (f a) (f b))
      {rs : VoteRouterStatus | rs.InRange} := fun f =>
    (orders_strcmp.comap f).mono fun _ _ => trivial
  have hnick : Orders (fun a b : VoteRouterStatus => strcmp b.nickname a.nickname)
      {rs | rs.InRange} := (htext (·.nickname)).reverse
  have haddr : Orders (fun a b : VoteRouterStatus => cmpNum a.ipv4Addr b.ipv4Addr)
      {rs | rs.InRange} := (orders_cmpNum.comap VoteRouterStatus.ipv4Addr).mono fun _ _ => trivial
  exact (htext (·.identityDigest)).thenBy <| (htext (·.descriptorDigest)).thenBy <|
    (orders_cmpField (by decide) fun _ => range_published).thenBy <| hnick.thenBy <|
    haddr.thenBy <| (orders_cmpField (by decide) fun _ => range_orport).thenBy <|
    (orders_cmpField (by decide) fun _ => range_dirport).thenBy orders_zero

/-- **What the comparison equates** is entries of one relay that agree on all that is compared. -/
theorem compareVoteRs_eq_zero (ha : a.InRange) (hb : b.InRange)
    (hrelay : a.identityDigest = b.identityDigest) :
    compareVoteRs a b = 0 ↔ SameRouterstatus a b := by
  have hpub := cmpField_eq_zero (by decide) (fun _ => range_published) ha hb
  have hor := cmpField_eq_zero (by decide) (fun _ => range_orport) ha hb
  have hdir := cmpField_eq_zero (by decide) (fun _ => range_dirport) ha hb
  unfold compareVoteRs
  simp only [thenBy_eq_zero, strcmp_eq_zero, hpub, hor, hdir, cmpNum_eq_zero, hrelay, true_and,
    and_true, Nat.cast_inj]
  constructor
  · exact fun h => ⟨h.1, h.2.1, h.2.2.1.symm, h.2.2.2.1, h.2.2.2.2.1, h.2.2.2.2.2⟩
  · exact fun h => ⟨h.descriptor, h.published, h.nickname.symm, h.address, h.orport, h.dirport⟩

/-- An earlier entry of one relay has no larger digest. -/
theorem descriptor_le (hrelay : a.identityDigest = b.identityDigest) (h : compareVoteRs a b ≤ 0) :
    strcmp a.descriptorDigest b.descriptorDigest ≤ 0 := by
  unfold compareVoteRs at h
  rw [hrelay, thenBy_le, strcmp_self, thenBy_le] at h
  omega

end Compare

/-! ## The loop -/

/-- What decides between two runs: how long they are, then how recent. -/
def runKey (run : VoteRouterStatus × ℕ) : ℕ ×ₗ ℤ := toLex (run.2, run.1.publishedOn)

/-- The variables of the loop stand for the best run so far and the current one. -/
structure RsScan.Stands (scan : RsScan) (best : Option (VoteRouterStatus × ℕ))
    (cur : VoteRouterStatus) : Prop where
  most : scan.most = best.map Prod.fst
  mostN : scan.mostN = (best.map Prod.snd).getD 0
  mostPublished : scan.mostPublished = (best.map fun run => run.1.publishedOn).getD 0
  cur : scan.cur = some cur
  curN : 0 < scan.curN

section Scan

variable {scan : RsScan} {best : Option (VoteRouterStatus × ℕ)} {cur : VoteRouterStatus}
variable {l : List VoteRouterStatus}

/-- At the end of a run the better one is kept. -/
theorem RsScan.Stands.close (h : scan.Stands best cur) (rs : VoteRouterStatus) :
    ({ scan.close with cur := some rs, curN := 1 } : RsScan).Stands
        (keepGreater runKey best (cur, scan.curN)) rs
      ∧ scan.close.most = (keepGreater runKey best (cur, scan.curN)).map Prod.fst := by
  obtain ⟨hmost, hn, hpub, hcur, hpos⟩ := h
  have hahead : scan.ahead cur ↔ ∀ run ∈ best, runKey run < runKey (cur, scan.curN) := by
    unfold RsScan.ahead
    cases best with
    | none =>
      rw [hn]
      simp [hpos]
    | some run =>
      rw [hn, hpub]
      simp only [Option.map_some, Option.getD_some, Option.mem_some_iff, forall_eq', runKey,
        Prod.Lex.toLex_lt_toLex, gt_iff_lt]
      omega
  unfold RsScan.close
  rw [hcur]
  dsimp only
  by_cases h : scan.ahead cur
  · have hkeep : keepGreater runKey best (cur, scan.curN) = some (cur, scan.curN) := by
      cases best with
      | none => rfl
      | some run => exact if_pos (hahead.mp h run rfl)
    rw [if_pos h, hkeep]
    exact ⟨⟨rfl, rfl, rfl, rfl, Nat.one_pos⟩, rfl⟩
  · have hkeep : keepGreater runKey best (cur, scan.curN) = best := by
      cases best with
      | none => exact absurd (hahead.mpr (by simp)) h
      | some run => exact if_neg fun hlt => h (hahead.mpr (by simpa using hlt))
    rw [if_neg h, hkeep]
    exact ⟨⟨hmost, hn, hpub, rfl, Nat.one_pos⟩, hmost⟩

/-- The loop keeps the best of the runs. -/
theorem scan_most (h : scan.Stands best cur) :
    (l.foldl RsScan.step scan).close.most
      = ((smartlistRuns.go (fun a b => compareVoteRs a b = 0) cur scan.curN l).foldl
        (keepGreater runKey) best).map Prod.fst := by
  induction l generalizing scan best cur with
  | nil => exact (h.close cur).2
  | cons rs l ih =>
    rw [List.foldl_cons, smartlistRuns.go, RsScan.step, h.cur, Option.any_some]
    by_cases hsame : compareVoteRs cur rs = 0
    · rw [if_pos (by simpa using hsame), if_pos (by simpa using hsame)]
      exact ih ⟨h.most, h.mostN, h.mostPublished, rfl, Nat.succ_pos _⟩
    · rw [if_neg (by simpa using hsame), if_neg (by simpa using hsame), List.foldl_cons]
      exact ih (h.close rs).1

/-- **The winner is the first of the best runs.** -/
theorem scan_eq_firstGreatest :
    (l.foldl RsScan.step {}).close.most
      = (firstGreatest runKey (smartlistRuns (fun a b => compareVoteRs a b = 0) l)).map Prod.fst := by
  cases l with
  | nil => rfl
  | cons rs l =>
    have hstart : (RsScan.step {} rs).Stands none rs := ⟨rfl, rfl, rfl, rfl, Nat.one_pos⟩
    rw [List.foldl_cons, scan_most hstart]
    rfl

end Scan

/-! ## The class that wins -/

instance (a b : VoteRouterStatus) : Decidable (SameRouterstatus a b) :=
  decidable_of_iff (a.descriptorDigest = b.descriptorDigest ∧ a.publishedOn = b.publishedOn
      ∧ a.nickname = b.nickname ∧ a.ipv4Addr = b.ipv4Addr ∧ a.ipv4Orport = b.ipv4Orport
      ∧ a.ipv4Dirport = b.ipv4Dirport)
    ⟨fun h => ⟨h.1, h.2.1, h.2.2.1, h.2.2.2.1, h.2.2.2.2.1, h.2.2.2.2.2⟩,
      fun h => ⟨h.descriptor, h.published, h.nickname, h.address, h.orport, h.dirport⟩⟩

/-- The entries of a vote on one relay. -/
structure OfOneRelay (votes : List VoteRouterStatus) : Prop where
  inRange : ∀ rs ∈ votes, rs.InRange
  relay : ∀ a ∈ votes, ∀ b ∈ votes, a.identityDigest = b.identityDigest

/-- The entries that agree with one. -/
def sameAs (votes : List VoteRouterStatus) (rs : VoteRouterStatus) : List VoteRouterStatus :=
  votes.filter fun rs' => SameRouterstatus rs rs'

/-- An entry of the class with the most votes; of two such classes the more recent one, and of two
such the one with the smaller descriptor digest. -/
structure MostVoted (votes : List VoteRouterStatus) (most : VoteRouterStatus) : Prop where
  mem : most ∈ votes
  count : ∀ rs ∈ votes, (sameAs votes rs).length ≤ (sameAs votes most).length
  published : ∀ rs ∈ votes, (sameAs votes rs).length = (sameAs votes most).length →
    rs.publishedOn ≤ most.publishedOn
  descriptor : ∀ rs ∈ votes, (sameAs votes rs).length = (sameAs votes most).length →
    rs.publishedOn = most.publishedOn → strcmp most.descriptorDigest rs.descriptorDigest ≤ 0

/-- What decides between two entries: the size of the class, then how recent it is. -/
def entryKey (votes : List VoteRouterStatus) (rs : VoteRouterStatus) : ℕ ×ₗ ℤ :=
  toLex (classCount compareVoteRs votes rs, rs.publishedOn)

/-- An entry of the class that wins, as the comparison orders the classes. -/
structure Leads (votes : List VoteRouterStatus) (most : VoteRouterStatus) : Prop where
  mem : most ∈ votes
  key : ∀ rs ∈ votes, entryKey votes rs ≤ entryKey votes most
  first : ∀ rs ∈ votes, entryKey votes rs = entryKey votes most → compareVoteRs most rs ≤ 0

section Winner

variable {Q Q' : Qsort} {votes votes' : List VoteRouterStatus} {most rs : VoteRouterStatus}

theorem OfOneRelay.perm (h : OfOneRelay votes) (hperm : votes.Perm votes') : OfOneRelay votes' where
  inRange rs hrs := h.inRange rs (hperm.mem_iff.mpr hrs)
  relay a ha b hb := h.relay a (hperm.mem_iff.mpr ha) b (hperm.mem_iff.mpr hb)

theorem OfOneRelay.equated (h : OfOneRelay votes) {a b : VoteRouterStatus} (ha : a ∈ votes)
    (hb : b ∈ votes) : compareVoteRs a b = 0 ↔ SameRouterstatus a b :=
  compareVoteRs_eq_zero (h.inRange a ha) (h.inRange b hb) (h.relay a ha b hb)

theorem OfOneRelay.length_sameAs (h : OfOneRelay votes) (hrs : rs ∈ votes) :
    (sameAs votes rs).length = classCount compareVoteRs votes rs := by
  unfold sameAs classCount
  rw [List.countP_eq_length_filter]
  congr 1
  refine List.filter_congr fun x hx => ?_
  rw [decide_eq_decide, h.equated hrs hx]

/-- The first of the best runs is of the class that wins. -/
theorem scan_leads (h : OfOneRelay votes) (hne : votes ≠ []) :
    ∃ most, ((Q.sort compareVoteRs votes).foldl RsScan.step {}).close.most = some most
      ∧ Leads votes most := by
  let sorted := Q.sort compareVoteRs votes
  have hperm : sorted.Perm votes := Q.perm compareVoteRs votes
  have hrange : ∀ rs ∈ sorted, rs ∈ {rs : VoteRouterStatus | rs.InRange} := fun rs hrs =>
    h.inRange rs (hperm.mem_iff.mp hrs)
  have hsorted : sorted.Pairwise fun a b => compareVoteRs a b ≤ 0 :=
    Q.sorted (orders_compareVoteRs.consistentOn h.inRange)
  obtain ⟨hstrict, hmem, hcover⟩ := smartlistRuns_classes orders_compareVoteRs hrange hsorted
  have hcount : ∀ a, classCount compareVoteRs sorted a = classCount compareVoteRs votes a :=
    fun a => classCount_perm hperm
  cases hbest : firstGreatest runKey (smartlistRuns (fun a b => compareVoteRs a b = 0) sorted) with
  | none =>
    obtain ⟨rs, hrs⟩ := List.exists_mem_of_ne_nil votes hne
    obtain ⟨run, hrun, -⟩ := hcover rs (hperm.mem_iff.mpr hrs)
    rw [firstGreatest_eq_none.mp hbest] at hrun
    cases hrun
  | some best =>
    have hfirst := firstGreatest_iff.mp hbest
    obtain ⟨hin, hsize⟩ := hmem best hfirst.mem
    refine ⟨best.1, by rw [scan_eq_firstGreatest, hbest]; rfl, hperm.mem_iff.mp hin, ?_, ?_⟩
    all_goals
      intro rs hrs
      obtain ⟨run, hrun, heq⟩ := hcover rs (hperm.mem_iff.mpr hrs)
      obtain ⟨hrunin, hrunsize⟩ := hmem run hrun
      have hclass := classCount_congr orders_compareVoteRs hrange (hrange _ hrunin)
        (h.inRange rs hrs) heq
      have hsame := (h.equated (hperm.mem_iff.mp hrunin) hrs).mp heq
      have hkey : entryKey votes rs = runKey run := by
        rw [entryKey, runKey, hrunsize, hclass, hcount, hsame.published]
      have hkeybest : entryKey votes best.1 = runKey best := by
        rw [entryKey, runKey, hsize, hcount]
      rw [hkey, hkeybest]
    · exact hfirst.greatest run hrun
    · -- the runs in front of it are worse, and those behind it come later
      intro htie
      obtain ⟨front, back, hsplit, hfront⟩ := hfirst.split
      rw [hsplit] at hrun hstrict
      have hle : compareVoteRs best.1 run.1 ≤ 0 := by
        rcases List.mem_append.mp hrun with hrun | hrun
        · exact absurd htie (hfront run hrun).ne
        · rcases List.mem_cons.mp hrun with rfl | hrun
          · exact (orders_compareVoteRs.self (hrange _ hin)).le
          · exact ((List.pairwise_cons.mp (List.pairwise_append.mp hstrict).2.1).1 run hrun).le
      exact orders_compareVoteRs.trans best.1 (hrange _ hin) run.1 (hrange _ hrunin) rs
        (h.inRange rs hrs) hle heq.le

theorem entryKey_perm (hperm : votes.Perm votes') : entryKey votes rs = entryKey votes' rs := by
  rw [entryKey, entryKey, classCount_perm hperm]

/-- One class wins, in whatever order the votes are. -/
theorem Leads.unique (h : OfOneRelay votes) (hperm : votes.Perm votes') {most' : VoteRouterStatus}
    (hmost : Leads votes most) (hmost' : Leads votes' most') : SameRouterstatus most most' := by
  have hmem := hperm.mem_iff.mp hmost.mem
  have hmem' := hperm.mem_iff.mpr hmost'.mem
  have hkey : entryKey votes most' = entryKey votes most := by
    refine le_antisymm (hmost.key most' hmem') ?_
    rw [entryKey_perm hperm, entryKey_perm hperm]
    exact hmost'.key most hmem
  have hle := hmost.first most' hmem' hkey
  have hle' := hmost'.first most hmem (by rw [← entryKey_perm hperm, ← entryKey_perm hperm, hkey])
  have hswap := orders_compareVoteRs.swap most' (h.inRange _ hmem') most (h.inRange _ hmost.mem)
  exact (h.equated hmost.mem hmem').mp (by omega)

theorem Leads.mostVoted (h : OfOneRelay votes) (hmost : Leads votes most) : MostVoted votes most := by
  have hkey : ∀ rs ∈ votes, (sameAs votes rs).length < (sameAs votes most).length
      ∨ (sameAs votes rs).length = (sameAs votes most).length
        ∧ rs.publishedOn ≤ most.publishedOn := by
    intro rs hrs
    have := hmost.key rs hrs
    rw [entryKey, entryKey, Prod.Lex.toLex_le_toLex, ← h.length_sameAs hrs,
      ← h.length_sameAs hmost.mem] at this
    exact this
  refine ⟨hmost.mem, fun rs hrs => ?_, fun rs hrs hlen => ?_, fun rs hrs hlen hpub => ?_⟩
  · have := hkey rs hrs
    omega
  · have := hkey rs hrs
    omega
  · refine descriptor_le (h.relay most hmost.mem rs hrs) (hmost.first rs hrs ?_)
    rw [entryKey, entryKey, ← h.length_sameAs hrs, ← h.length_sameAs hmost.mem, hlen, hpub]

/-- What the entries of the class that wins say, in the order that they were sorted in. -/
theorem sameAs_sorted (h : OfOneRelay votes) (hmost : most ∈ votes) :
    (((Q.sort compareVoteRs votes).filter fun rs => compareVoteRs most rs = 0).Perm
        (sameAs votes most))
      ∧ ((Q.sort compareVoteRs votes).filter fun rs => compareVoteRs rs most = 0).Perm
        (sameAs votes most) := by
  have hclass : ∀ rs ∈ votes, (compareVoteRs most rs = 0 ↔ SameRouterstatus most rs)
      ∧ (compareVoteRs rs most = 0 ↔ SameRouterstatus most rs) := fun rs hrs =>
    ⟨h.equated hmost hrs, (orders_compareVoteRs.symm (h.inRange rs hrs) (h.inRange most hmost)).trans
      (h.equated hmost hrs)⟩
  have hperm : (Q.sort compareVoteRs votes).Perm votes := Q.perm compareVoteRs votes
  refine ⟨(hperm.filter _).trans (List.Perm.of_eq ?_), (hperm.filter _).trans (List.Perm.of_eq ?_)⟩
  · exact List.filter_congr fun rs hrs => decide_eq_decide.mpr (hclass rs hrs).1
  · exact List.filter_congr fun rs hrs => decide_eq_decide.mpr (hclass rs hrs).2

/-- In whatever order the votes are, the same entries agree with the winner. -/
theorem sameAs_perm (hperm : votes.Perm votes') {most' : VoteRouterStatus}
    (hsame : SameRouterstatus most most') : (sameAs votes most).Perm (sameAs votes' most') := by
  refine (hperm.filter _).trans (List.Perm.of_eq (List.filter_congr fun rs _ => ?_))
  rw [decide_eq_decide]
  constructor
  · exact fun h => ⟨hsame.descriptor.symm.trans h.descriptor, hsame.published.symm.trans h.published,
      hsame.nickname.symm.trans h.nickname, hsame.address.symm.trans h.address,
      hsame.orport.symm.trans h.orport, hsame.dirport.symm.trans h.dirport⟩
  · exact fun h => ⟨hsame.descriptor.trans h.descriptor, hsame.published.trans h.published,
      hsame.nickname.trans h.nickname, hsame.address.trans h.address,
      hsame.orport.trans h.orport, hsame.dirport.trans h.dirport⟩

end Winner

theorem orders_compareOrports : Orders compareOrports Set.univ := by
  have haddr : Orders (fun a b : Bytes × ℕ => strcmp a.1 b.1) Set.univ :=
    orders_strcmp.comap Prod.fst
  have hport : Orders (fun a b : Bytes × ℕ => (b.2 : ℤ) - a.2) Set.univ :=
    ⟨fun a _ b _ => by omega, fun a _ b _ c _ hab hbc => by omega⟩
  exact haddr.thenBy (hport.thenBy orders_zero)

theorem compareOrports_eq_zero {a b : Bytes × ℕ} (h : compareOrports a b = 0) : a = b := by
  unfold compareOrports at h
  rw [thenBy_eq_zero, thenBy_eq_zero, strcmp_eq_zero] at h
  exact Prod.ext h.1 (by omega)

/-- What the computation gives, in terms of the class that wins. -/
theorem computeRouterstatusConsensus_eq {Q : Qsort} {votes : List VoteRouterStatus}
    (h : OfOneRelay votes) (hne : votes ≠ []) (method : ℤ) :
    ∃ r, computeRouterstatusConsensus Q votes method = some r ∧ Leads votes r.most
      ∧ r.bestAltOrport = mostFrequent Q compareOrports ((sameAs votes r.most).filterMap altOrport)
      ∧ r.microdescDigest = mostFrequent Q strcmp ((sameAs votes r.most).filterMap fun rs =>
        voteRouterstatusFindMicrodescHash rs method) := by
  obtain ⟨most, hscan, hleads⟩ := scan_leads (Q := Q) h hne
  obtain ⟨halt, hdigests⟩ := sameAs_sorted (Q := Q) h hleads.mem
  refine ⟨_, by
    unfold computeRouterstatusConsensus
    dsimp only
    rw [hscan]
    rfl, hleads, ?_, ?_⟩
  · exact mostFrequent_perm orders_compareOrports (fun _ _ => compareOrports_eq_zero)
      (halt.filterMap altOrport)
  · exact mostFrequent_perm orders_strcmp (fun _ _ => strcmp_eq_zero.mp) (hdigests.filterMap _)

/-- **The status that is chosen is the most voted one**, and what is voted on within its class is
most frequent there. None of it depends on the order of the votes. -/
theorem routerstatus_consensus_most_voted (Q : Qsort) {votes : List VoteRouterStatus}
    (h : OfOneRelay votes) (hne : votes ≠ []) (method : ℤ) :
    (∀ a ∈ votes, ∀ b ∈ votes, compareVoteRs a b = 0 ↔ SameRouterstatus a b)
      ∧ ∃ r, computeRouterstatusConsensus Q votes method = some r ∧ MostVoted votes r.most
        ∧ MostFrequentIn ((sameAs votes r.most).filterMap altOrport) r.bestAltOrport
        ∧ MostFrequentIn ((sameAs votes r.most).filterMap fun rs =>
          voteRouterstatusFindMicrodescHash rs method) r.microdescDigest
        ∧ ∀ (Q' : Qsort) (votes' : List VoteRouterStatus), votes.Perm votes' →
          ∃ r', computeRouterstatusConsensus Q' votes' method = some r'
            ∧ SameRouterstatus r.most r'.most ∧ r'.bestAltOrport = r.bestAltOrport
            ∧ r'.microdescDigest = r.microdescDigest := by
  obtain ⟨r, hr, hleads, halt, hdigest⟩ := computeRouterstatusConsensus_eq (Q := Q) h hne method
  refine ⟨fun a ha b hb => h.equated ha hb, r, hr, hleads.mostVoted h, ?_, ?_,
    fun Q' votes' hperm => ?_⟩
  · rw [halt]
    exact mostFrequent_spec orders_compareOrports fun _ _ => compareOrports_eq_zero
  · rw [hdigest]
    exact mostFrequent_spec orders_strcmp fun _ _ => strcmp_eq_zero.mp
  · have hne' : votes' ≠ [] := fun hnil => hne (List.perm_nil.mp (hnil ▸ hperm))
    obtain ⟨r', hr', hleads', halt', hdigest'⟩ :=
      computeRouterstatusConsensus_eq (Q := Q') (h.perm hperm) hne' method
    have hsame := hleads.unique h hperm hleads'
    have hclass := sameAs_perm hperm hsame
    refine ⟨r', hr', hsame, ?_, ?_⟩
    · rw [halt, halt']
      exact (mostFrequent_perm orders_compareOrports (fun _ _ => compareOrports_eq_zero)
        (hclass.filterMap _)).symm
    · rw [hdigest, hdigest']
      exact (mostFrequent_perm orders_strcmp (fun _ _ => strcmp_eq_zero.mp)
        (hclass.filterMap _)).symm

/-- An entry of one relay with a descriptor and its time. -/
def plainEntry (descriptor : UInt8) (publishedOn : ℤ) : VoteRouterStatus where
  nickname := cstring "relay"
  identityDigest := List.replicate 20 1
  descriptorDigest := List.replicate 20 descriptor
  publishedOn := publishedOn
  ipv4Addr := 2130706433
  ipv4Orport := 9001
  ipv4Dirport := 0
  ipv6 := none
  flags := 0
  version := none
  protocols := none
  bandwidthKb := none
  measuredBwKb := none
  guardfractionPercentage := none
  exitsummary := none
  microdesc := []
  hasEd25519Listing := false
  ed25519Id := List.replicate 32 0

/-- Two votes for an old descriptor win over one for a new one. -/
theorem routerstatus_consensus_two_to_one :
    ∃ r, computeRouterstatusConsensus Qsort.insertion
        [plainEntry 7 1767225600, plainEntry 3 1767229200, plainEntry 7 1767225600] 33 = some r
      ∧ MostVoted
        [plainEntry 7 1767225600, plainEntry 3 1767229200, plainEntry 7 1767225600] r.most := by
  have h : OfOneRelay
      [plainEntry 7 1767225600, plainEntry 3 1767229200, plainEntry 7 1767225600] := by
    refine ⟨fun rs hrs => ?_, fun a ha b hb => ?_⟩
    · simp only [List.mem_cons, List.not_mem_nil, or_false] at hrs
      rcases hrs with rfl | rfl | rfl <;>
        exact ⟨by simp [plainEntry], by simp [plainEntry], by simp [plainEntry]⟩
    · simp only [List.mem_cons, List.not_mem_nil, or_false] at ha hb
      rcases ha with rfl | rfl | rfl <;> rcases hb with rfl | rfl | rfl <;> rfl
  obtain ⟨-, r, hr, hmost, -⟩ := routerstatus_consensus_most_voted Qsort.insertion h (by simp) 33
  exact ⟨r, hr, hmost⟩

end Dittor.Tor

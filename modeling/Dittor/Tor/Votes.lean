import Dittor.Lib.FirstGreatest
import Dittor.Tor.Descriptor

/-!
# Collecting the votes of a period (`dirvote.c`)

`dirvote_add_vote` takes a posted or fetched text, which may hold several votes
one after the other, and puts those it accepts on `pending_vote_list`: one per
authority, where a vote gives way to one that was published later. The parser
is a parameter (`VoteParser`), since nothing here depends on what else a vote
says; so are the recognized authorities and the schedule.

One pass of the source from its label `again` to the next jump is `addPass`.
After a replacement the source jumps back without moving on in the text, so the
same vote is parsed again, found to be a duplicate, and only then skipped;
`addLoop_eq` says that this comes to adding the votes of the text in their
order. The list of an authority is then a register that keeps the first
greatest publication time, and `held_eq` says so.
-/

namespace Dittor.Tor

open Dittor.Lib

/-- What `dirvote_add_vote` reads of a parsed vote. The parser makes sure that
the certificate has the voter's identity. -/
structure Vote where
  identityDigest : Bytes
  published : ℤ
  validAfter : ℤ
  /-- The digest of the signed part. -/
  voteDigest : Bytes
deriving DecidableEq, Repr

/-- `networkstatus_parse_vote_from_string(…, NS_TYPE_VOTE)`: the vote and
`end_of_vote`, which is behind the start of the text. -/
structure VoteParser where
  parse : Bytes → Option (Vote × Bytes)
  shorter : ∀ {body vote rest}, parse body = some (vote, rest) → rest.length < body.length

/-- What stays the same during a voting period: the authorities
`trusteddirserver_get_by_v3_auth_digest` knows, and two times of the schedule. -/
structure VotingPeriod where
  recognized : Bytes → Bool
  intervalStarts : ℤ
  fetchMissingVotes : ℤ

/-- A call of `dirvote_add_vote`; `timePosted` is zero for a fetched vote. -/
structure Delivery where
  voteBody : Bytes
  timePosted : ℤ
deriving DecidableEq, Repr

/-- What became of one vote. -/
inductive VoteVerdict where
  | added
  | replaced
  | duplicate
  | rejected (msg : String)
deriving DecidableEq, Repr

section Model

variable (P : VoteParser) (V : VotingPeriod)

/-- The checks of a parsed vote, and its way onto the list. -/
def addVote (timePosted : ℤ) (pending : List Vote) (vote : Vote) : List Vote × VoteVerdict :=
  if !V.recognized vote.identityDigest then
    (pending, .rejected "Vote not from a recognized v3 authority")
  else if vote.validAfter ≠ V.intervalStarts then (pending, .rejected "Bad valid-after time")
  else if timePosted ≠ 0 ∧ V.fetchMissingVotes < timePosted then
    (pending, .rejected "Posted vote received too late, would be dangerous to count it")
  else match pending.findIdx? fun v => v.identityDigest = vote.identityDigest with
  | none => (pending ++ [vote], .added)
  | some i =>
    match pending[i]? with
    | none => (pending, .duplicate) -- not an index of the list
    | some old =>
      if old.voteDigest = vote.voteDigest then (pending, .duplicate)
      else if old.published < vote.published then (pending.set i vote, .replaced)
      else (pending, .rejected "Already have a newer pending vote")

/-- `!strcmpstart(end_of_vote, …)` -/
def startsWith (keyword : String) (text : Bytes) : Bool := (cstring keyword).isPrefixOf text

/-- From the label `again` to the next jump: the list, and where to go on. A
text that does not parse ends the loop. -/
def addPass (timePosted : ℤ) (pending : List Vote) (body : Bytes) : List Vote × Option Bytes :=
  match P.parse body with
  | none => (pending, none)
  | some (vote, rest) =>
    let next := if startsWith "network-status-version " rest then some rest else none
    match addVote V timePosted pending vote with
    -- `vote_body` is not moved here, and the keyword is tested without its blank
    | (pending, .replaced) =>
      (pending, if startsWith "network-status-version" rest then some body else none)
    | (pending, _) => (pending, next)

/-- The loop, with a bound on the number of passes. -/
def addLoop (timePosted : ℤ) : ℕ → List Vote → Bytes → List Vote
  | 0, pending, _ => pending
  | passes + 1, pending, body =>
    match addPass P V timePosted pending body with
    | (pending, none) => pending
    | (pending, some body) => addLoop timePosted passes pending body

/-- `dirvote_add_vote`: a vote takes two passes at most. -/
def dirvoteAddVote (pending : List Vote) (d : Delivery) : List Vote :=
  addLoop P V d.timePosted (2 * d.voteBody.length + 2) pending d.voteBody

/-- The deliveries of a period. -/
def collect (deliveries : List Delivery) : List Vote :=
  deliveries.foldl (dirvoteAddVote P V) []

/-- The votes of a text, up to the first that does not parse. -/
def votesOf (body : Bytes) : List Vote :=
  match _h : P.parse body with
  | none => []
  | some (vote, rest) =>
    vote :: if startsWith "network-status-version " rest then votesOf rest else []
termination_by body.length
decreasing_by exact P.shorter _h

/-- The vote passes the checks that do not look at the list. -/
def Acceptable (timePosted : ℤ) (vote : Vote) : Prop :=
  V.recognized vote.identityDigest = true ∧ vote.validAfter = V.intervalStarts
    ∧ ¬ (timePosted ≠ 0 ∧ V.fetchMissingVotes < timePosted)

instance (timePosted : ℤ) (vote : Vote) : Decidable (Acceptable V timePosted vote) :=
  (inferInstance : Decidable (_ ∧ _))

/-- The acceptable votes of an authority in a delivery, in their order. -/
def acceptedFrom (authority : Bytes) (d : Delivery) : List Vote :=
  (votesOf P d.voteBody).filter fun v =>
    Acceptable V d.timePosted v ∧ v.identityDigest = authority

end Model

section Pass

variable {P : VoteParser} {V : VotingPeriod} {timePosted : ℤ} {pending : List Vote}

/-- The vote an authority has on the list. -/
def held (pending : List Vote) (authority : Bytes) : Option Vote :=
  pending.find? fun v => v.identityDigest = authority

/-- At most one vote per authority. -/
def OnePerAuthority (pending : List Vote) : Prop := (pending.map (·.identityDigest)).Nodup

/-- What adding a vote can do. -/
inductive Adds (V : VotingPeriod) (timePosted : ℤ) (pending : List Vote) (vote : Vote) :
    List Vote × VoteVerdict → Prop
  | unacceptable {msg : String} (h : ¬ Acceptable V timePosted vote) :
      Adds V timePosted pending vote (pending, .rejected msg)
  | added (h : Acceptable V timePosted vote)
      (hnew : ∀ v ∈ pending, v.identityDigest ≠ vote.identityDigest) :
      Adds V timePosted pending vote (pending ++ [vote], .added)
  | duplicate {a b : List Vote} {old : Vote} (h : Acceptable V timePosted vote)
      (hl : pending = a ++ old :: b) (hid : old.identityDigest = vote.identityDigest)
      (ha : ∀ v ∈ a, v.identityDigest ≠ vote.identityDigest)
      (hd : old.voteDigest = vote.voteDigest) :
      Adds V timePosted pending vote (pending, .duplicate)
  | replaced {a b : List Vote} {old : Vote} (h : Acceptable V timePosted vote)
      (hl : pending = a ++ old :: b) (hid : old.identityDigest = vote.identityDigest)
      (ha : ∀ v ∈ a, v.identityDigest ≠ vote.identityDigest)
      (hd : old.voteDigest ≠ vote.voteDigest) (hp : old.published < vote.published) :
      Adds V timePosted pending vote (a ++ vote :: b, .replaced)
  | older {a b : List Vote} {old : Vote} {msg : String} (h : Acceptable V timePosted vote)
      (hl : pending = a ++ old :: b) (hid : old.identityDigest = vote.identityDigest)
      (ha : ∀ v ∈ a, v.identityDigest ≠ vote.identityDigest)
      (hd : old.voteDigest ≠ vote.voteDigest) (hp : vote.published ≤ old.published) :
      Adds V timePosted pending vote (pending, .rejected msg)

/-- The first vote of an authority, and the list around it. -/
theorem findIdx_split {authority : Bytes} {i : ℕ}
    (h : pending.findIdx? (fun v => v.identityDigest = authority) = some i) :
    ∃ a old b, pending = a ++ old :: b ∧ a.length = i ∧ old.identityDigest = authority
      ∧ ∀ v ∈ a, v.identityDigest ≠ authority := by
  obtain ⟨hi, ho, hbefore⟩ := List.findIdx?_eq_some_iff_getElem.mp h
  refine ⟨pending.take i, pending[i], pending.drop (i + 1), by simp, by simp; omega,
    by simpa using ho, fun v hv => ?_⟩
  obtain ⟨k, hk, hv⟩ := List.getElem_of_mem hv
  rw [List.length_take] at hk
  have hne := hbefore k (by omega)
  rw [List.getElem_take] at hv
  rw [hv] at hne
  simpa using hne

variable (V timePosted pending) in
theorem addVote_spec (vote : Vote) :
    Adds V timePosted pending vote (addVote V timePosted pending vote) := by
  unfold addVote
  split
  next hr => exact .unacceptable fun h => absurd h.1 (by simpa using hr)
  next hr =>
    split
    next hv => exact .unacceptable fun h => hv h.2.1
    next hv =>
      split
      next ht => exact .unacceptable fun h => h.2.2 ht
      next ht =>
        have hacc : Acceptable V timePosted vote := ⟨by simpa using hr, not_not.mp hv, ht⟩
        split
        next hnone =>
          refine .added hacc fun v hmem => ?_
          simpa using List.findIdx?_eq_none_iff.mp hnone v hmem
        next i hi =>
          obtain ⟨a, old, b, rfl, rfl, hid, ha⟩ := findIdx_split hi
          have hget : (a ++ old :: b)[a.length]? = some old := by simp
          rw [hget]
          dsimp only
          split
          next hd => exact .duplicate hacc rfl hid ha hd
          next hd =>
            split
            next hp =>
              rw [List.set_append_right _ _ (le_refl _), Nat.sub_self, List.set_cons_zero]
              exact .replaced hacc rfl hid ha hd hp
            next hp => exact .older hacc rfl hid ha hd (not_lt.mp hp)

/-- Around the first vote of an authority the list holds that vote for it. -/
theorem held_split {a b : List Vote} {old : Vote} {authority : Bytes}
    (hid : old.identityDigest = authority) (ha : ∀ v ∈ a, v.identityDigest ≠ authority) :
    held (a ++ old :: b) authority = some old := by
  unfold held
  rw [List.find?_append, List.find?_eq_none.mpr (fun v hv => by simpa using ha v hv),
    Option.none_or, List.find?_cons_of_pos (by simpa using hid)]

/-- Another vote in its place leaves the other authorities' votes. -/
theorem held_replace {a b : List Vote} {old vote : Vote} {authority : Bytes}
    (ho : old.identityDigest ≠ authority) (hv : vote.identityDigest ≠ authority) :
    held (a ++ vote :: b) authority = held (a ++ old :: b) authority := by
  unfold held
  rw [List.find?_append, List.find?_append, List.find?_cons_of_neg (by simpa using hv),
    List.find?_cons_of_neg (by simpa using ho)]

/-- **A vote that is not stored changes nothing**; one that is stored is now
the vote of its authority, and the others are as before. -/
theorem Adds.frame {vote : Vote} {out : List Vote × VoteVerdict}
    (h : Adds V timePosted pending vote out) :
    (out.1 = pending ∧ out.2 ≠ .added ∧ out.2 ≠ .replaced)
      ∨ (out.2 = .added ∨ out.2 = .replaced)
        ∧ held out.1 vote.identityDigest = some vote
        ∧ ∀ authority, authority ≠ vote.identityDigest →
          held out.1 authority = held pending authority := by
  cases h with
  | unacceptable => exact Or.inl ⟨rfl, by simp, by simp⟩
  | duplicate => exact Or.inl ⟨rfl, by simp, by simp⟩
  | older => exact Or.inl ⟨rfl, by simp, by simp⟩
  | added hacc hnew =>
    refine Or.inr ⟨Or.inl rfl, held_split rfl hnew, fun authority hne => ?_⟩
    unfold held
    rw [List.find?_append, List.find?_cons_of_neg (by simpa using fun h => hne h.symm),
      List.find?_nil, Option.or_none]
  | replaced hacc hl hid ha =>
    subst hl
    refine Or.inr ⟨Or.inr rfl, held_split rfl ha, fun authority hne => ?_⟩
    exact held_replace (fun h => hne (h.symm.trans hid)) fun h => hne h.symm

theorem Adds.onePerAuthority {vote : Vote} {out : List Vote × VoteVerdict}
    (h : Adds V timePosted pending vote out) (hone : OnePerAuthority pending) :
    OnePerAuthority out.1 := by
  cases h with
  | unacceptable => exact hone
  | duplicate => exact hone
  | older => exact hone
  | added hacc hnew =>
    unfold OnePerAuthority
    rw [List.map_append, List.map_singleton, (List.perm_append_singleton _ _).nodup_iff]
    refine List.nodup_cons.mpr ⟨fun hm => ?_, hone⟩
    obtain ⟨v, hv, hid⟩ := List.mem_map.mp hm
    exact hnew v hv hid
  | replaced hacc hl hid ha =>
    subst hl
    unfold OnePerAuthority at hone ⊢
    rw [List.map_append, List.map_cons] at hone ⊢
    rw [← hid]
    exact hone

end Pass

/-! ## The votes of one text -/

section Text

variable {P : VoteParser} {V : VotingPeriod} {timePosted : ℤ} {pending : List Vote}

/-- The votes of a text, added one after the other. -/
def addVotes (V : VotingPeriod) (timePosted : ℤ) (pending votes : List Vote) : List Vote :=
  votes.foldl (fun l v => (addVote V timePosted l v).1) pending

/-- A vote that was just stored is a duplicate. -/
theorem addVote_again {vote : Vote} {l : List Vote}
    (h : Adds V timePosted pending vote (l, .replaced)) :
    addVote V timePosted l vote = (l, .duplicate) := by
  cases h with
  | @replaced a b old hacc hl hid ha hd hp =>
    have hheld : held (a ++ vote :: b) vote.identityDigest = some vote := held_split rfl ha
    have hspec := addVote_spec V timePosted (a ++ vote :: b) vote
    generalize addVote V timePosted (a ++ vote :: b) vote = out at hspec ⊢
    cases hspec with
    | unacceptable hno => exact absurd hacc hno
    | added _ hnew => exact absurd rfl (hnew vote (by simp))
    | duplicate => rfl
    | replaced _ hl' hid' ha' hd' =>
      rw [hl', held_split hid' ha'] at hheld
      exact absurd (congrArg Vote.voteDigest (Option.some.inj hheld)) hd'
    | older _ hl' hid' ha' hd' =>
      rw [hl', held_split hid' ha'] at hheld
      exact absurd (congrArg Vote.voteDigest (Option.some.inj hheld)) hd'

theorem startsWith_of_blank {rest : Bytes}
    (h : startsWith "network-status-version " rest = true) :
    startsWith "network-status-version" rest = true := by
  have hpre : cstring "network-status-version" <+: cstring "network-status-version " := by decide
  exact List.isPrefixOf_iff_prefix.mpr (hpre.trans (List.isPrefixOf_iff_prefix.mp h))

/-- **The loop adds the votes of the text in their order**; the passes it is
given suffice. -/
theorem addLoop_eq : ∀ (body : Bytes) (passes : ℕ) (pending : List Vote),
    2 * body.length + 2 ≤ passes →
      addLoop P V timePosted passes pending body
        = addVotes V timePosted pending (votesOf P body) := by
  intro body
  induction hlen : body.length using Nat.strongRecOn generalizing body with
  | ind n ih =>
    intro passes pending hp
    subst hlen
    obtain ⟨passes, rfl⟩ : ∃ k, passes = k + 1 := ⟨passes - 1, by omega⟩
    rw [addLoop, votesOf]
    unfold addPass
    cases hparse : P.parse body with
    | none => rfl
    | some x =>
      obtain ⟨vote, rest⟩ := x
      have hshort := P.shorter hparse
      -- going on behind the vote
      have hrest : ∀ k l, 2 * rest.length + 2 ≤ k →
          (match (l, if startsWith "network-status-version " rest then some rest else none) with
            | (l, none) => l
            | (l, some body) => addLoop P V timePosted k l body)
            = addVotes V timePosted l
              (if startsWith "network-status-version " rest then votesOf P rest else []) := by
        intro k l hk
        split_ifs with hs
        · exact ih rest.length hshort rest rfl k l hk
        · rfl
      have hspec := addVote_spec V timePosted pending vote
      have hcons : ∀ xs, addVotes V timePosted pending (vote :: xs)
          = addVotes V timePosted (addVote V timePosted pending vote).1 xs := fun _ => rfl
      dsimp only
      rw [hcons]
      generalize addVote V timePosted pending vote = out at hspec ⊢
      obtain ⟨l, verdict⟩ := out
      cases verdict with
      | added => exact hrest passes l (by omega)
      | duplicate => exact hrest passes l (by omega)
      | rejected msg => exact hrest passes l (by omega)
      | replaced =>
        dsimp only
        by_cases hs : startsWith "network-status-version" rest = true
        · -- the same text once more, which is now a duplicate
          rw [if_pos hs]
          dsimp only
          obtain ⟨passes, rfl⟩ : ∃ k, passes = k + 1 := ⟨passes - 1, by omega⟩
          rw [addLoop]
          unfold addPass
          rw [hparse]
          dsimp only
          rw [addVote_again hspec]
          exact hrest passes l (by omega)
        · have hs' : ¬ startsWith "network-status-version " rest = true :=
            fun h => hs (startsWith_of_blank h)
          rw [if_neg hs, if_neg hs']
          rfl

theorem dirvoteAddVote_eq (pending : List Vote) (d : Delivery) :
    dirvoteAddVote P V pending d = addVotes V d.timePosted pending (votesOf P d.voteBody) :=
  addLoop_eq _ _ _ (le_refl _)

/-- At no point of a call does an authority have two votes. -/
theorem addLoop_onePerAuthority : ∀ (passes : ℕ) {pending : List Vote} (body : Bytes),
    OnePerAuthority pending →
      OnePerAuthority (addLoop P V timePosted passes pending body) := by
  intro passes
  induction passes with
  | zero => exact fun _ h => h
  | succ passes ih =>
    intro pending body h
    rw [addLoop]
    have hpass : OnePerAuthority (addPass P V timePosted pending body).1 := by
      unfold addPass
      cases P.parse body with
      | none => exact h
      | some x =>
        have hadd := (addVote_spec V timePosted pending x.1).onePerAuthority h
        dsimp only
        split
        next hv => rw [hv] at hadd; exact hadd
        next hv => rw [hv] at hadd; exact hadd
    split
    next hv => rw [hv] at hpass; exact hpass
    next hv => rw [hv] at hpass; exact ih _ hpass

/-- Votes of one authority with one digest are published at one time: the
digest covers the publication time. -/
def DigestsTell (votes : List Vote) : Prop :=
  ∀ v ∈ votes, ∀ w ∈ votes, v.identityDigest = w.identityDigest →
    v.voteDigest = w.voteDigest → v.published = w.published

/-- **What an authority has on the list after one more vote**: the register
keeps the later one. -/
theorem held_addVote {vote : Vote} {votes : List Vote} (hcr : DigestsTell votes)
    (hp : ∀ v ∈ pending, v ∈ votes) (hv : vote ∈ votes) (authority : Bytes) :
    held (addVote V timePosted pending vote).1 authority
      = if Acceptable V timePosted vote ∧ vote.identityDigest = authority then
          keepGreater Vote.published (held pending authority) vote
        else held pending authority := by
  have hspec := addVote_spec V timePosted pending vote
  generalize addVote V timePosted pending vote = out at hspec ⊢
  by_cases hacc : Acceptable V timePosted vote
  · by_cases hid : vote.identityDigest = authority
    · rw [if_pos ⟨hacc, hid⟩]
      subst hid
      cases hspec with
      | unacceptable hno => exact absurd hacc hno
      | added _ hnew =>
        have hnone : held pending vote.identityDigest = none :=
          List.find?_eq_none.mpr fun v hv => by simpa using hnew v hv
        rw [hnone]
        exact held_split rfl hnew
      | @duplicate a b old _ hl hid ha hd =>
        have hsame := hcr old (hp old (by rw [hl]; simp)) vote hv hid hd
        rw [hl, held_split hid ha, keepGreater, if_neg (by rw [hsame]; exact lt_irrefl _)]
      | replaced _ hl hid ha hd hpub =>
        rw [hl, held_split hid ha, held_split rfl ha, keepGreater, if_pos hpub]
      | older _ hl hid ha hd hpub =>
        rw [hl, held_split hid ha, keepGreater, if_neg (not_lt.mpr hpub)]
    · rw [if_neg fun h => hid h.2]
      rcases hspec.frame with ⟨hsame, -⟩ | ⟨-, -, hother⟩
      · rw [hsame]
      · exact hother authority fun h => hid h.symm
  · rw [if_neg fun h => hacc h.1]
    cases hspec with
    | unacceptable => rfl
    | added h => exact absurd h hacc
    | duplicate h => exact absurd h hacc
    | replaced h => exact absurd h hacc
    | older h => exact absurd h hacc

/-- Nothing gets onto the list that was not delivered. -/
theorem mem_addVote {vote v : Vote} (h : v ∈ (addVote V timePosted pending vote).1) :
    v ∈ pending ∨ v = vote := by
  have hspec := addVote_spec V timePosted pending vote
  generalize addVote V timePosted pending vote = out at hspec h
  cases hspec with
  | unacceptable => exact Or.inl h
  | duplicate => exact Or.inl h
  | older => exact Or.inl h
  | added => simpa using h
  | replaced _ hl =>
    rw [hl]
    simp only [List.mem_append, List.mem_cons] at h ⊢
    rcases h with h | h | h
    · exact Or.inl (Or.inl h)
    · exact Or.inr h
    · exact Or.inl (Or.inr (Or.inr h))

variable (V timePosted) in
/-- The votes of a text, seen from one authority. -/
theorem held_addVotes {votes : List Vote} (hcr : DigestsTell votes) (authority : Bytes) :
    ∀ (l : List Vote) {pending : List Vote}, (∀ v ∈ pending, v ∈ votes) → (∀ v ∈ l, v ∈ votes) →
      (∀ v ∈ addVotes V timePosted pending l, v ∈ votes)
      ∧ held (addVotes V timePosted pending l) authority
        = (l.filter fun v => Acceptable V timePosted v ∧ v.identityDigest = authority).foldl
          (keepGreater Vote.published) (held pending authority) := by
  intro l
  induction l with
  | nil => exact fun hp _ => ⟨hp, rfl⟩
  | cons vote l ih =>
    intro pending hp hl
    have hvote := hl vote List.mem_cons_self
    have hp' : ∀ v ∈ (addVote V timePosted pending vote).1, v ∈ votes := by
      intro v hv
      rcases mem_addVote hv with h | h
      · exact hp v h
      · rw [h]
        exact hvote
    obtain ⟨hmem, hheld⟩ := ih hp' fun v hv => hl v (List.mem_cons_of_mem _ hv)
    refine ⟨hmem, ?_⟩
    show held (addVotes V timePosted (addVote V timePosted pending vote).1 l) authority = _
    rw [hheld, held_addVote hcr hp hvote]
    by_cases hc : Acceptable V timePosted vote ∧ vote.identityDigest = authority
    · rw [if_pos hc, List.filter_cons_of_pos (by simpa using hc), List.foldl_cons]
    · rw [if_neg hc, List.filter_cons_of_neg (by simpa using hc)]

end Text

/-! ## A whole period -/

section Period

variable {P : VoteParser} {V : VotingPeriod}

/-- The votes of all deliveries. -/
def deliveredVotes (P : VoteParser) (deliveries : List Delivery) : List Vote :=
  deliveries.flatMap fun d => votesOf P d.voteBody

/-- The votes on the list, by authority and digest. -/
def heldDigests (pending : List Vote) : Set (Bytes × Bytes) :=
  { x | ∃ v ∈ pending, x = (v.identityDigest, v.voteDigest) }

theorem collect_onePerAuthority (deliveries : List Delivery) :
    OnePerAuthority (collect P V deliveries) := by
  unfold collect
  induction deliveries using List.reverseRecOn with
  | nil => exact .nil
  | append_singleton l d ih =>
    rw [List.foldl_append]
    exact addLoop_onePerAuthority _ _ ih

/-- **What is held for an authority**: the first of its latest acceptable
votes, in the order of the deliveries. -/
theorem held_eq {votes : List Vote} (hcr : DigestsTell votes) (authority : Bytes)
    {deliveries : List Delivery} (hall : ∀ v ∈ deliveredVotes P deliveries, v ∈ votes) :
    held (collect P V deliveries) authority
      = firstGreatest Vote.published (deliveries.flatMap (acceptedFrom P V authority)) := by
  have hgen : (∀ v ∈ collect P V deliveries, v ∈ votes)
      ∧ held (collect P V deliveries) authority
        = firstGreatest Vote.published (deliveries.flatMap (acceptedFrom P V authority)) := by
    unfold collect
    induction deliveries using List.reverseRecOn with
    | nil => exact ⟨fun v hv => absurd hv (by simp), rfl⟩
    | append_singleton l d ih =>
      rw [deliveredVotes, List.flatMap_append, List.flatMap_singleton] at hall
      obtain ⟨hmem, hheld⟩ := ih fun v hv => hall v (List.mem_append_left _ hv)
      rw [List.foldl_append, List.foldl_cons, List.foldl_nil, dirvoteAddVote_eq]
      obtain ⟨hmem', hheld'⟩ := held_addVotes V d.timePosted hcr authority
        (votesOf P d.voteBody) hmem fun v hv => hall v (List.mem_append_right _ hv)
      refine ⟨hmem', ?_⟩
      rw [hheld', hheld, List.flatMap_append, List.flatMap_singleton, firstGreatest, firstGreatest,
        List.foldl_append]
      rfl
  exact hgen.2

/-- A first greatest element of a concatenation is that of its part. -/
theorem isFirstGreatest_flatMap {α : Type} {f : Vote → ℤ} {g : α → List Vote} {w : Vote} :
    ∀ {l : List α}, IsFirstGreatest f (l.flatMap g) w →
      ∃ d ∈ l, IsFirstGreatest f (g d) w := by
  intro l h
  obtain ⟨a, b, hl, ha⟩ := h.split
  have hmax := h.greatest
  clear h
  induction l generalizing a with
  | nil => exact absurd hl (by simp)
  | cons d l ih =>
    rw [List.flatMap_cons] at hl hmax
    rcases List.append_eq_append_iff.mp hl with ⟨c, hc, hc'⟩ | ⟨c, hc, hc'⟩
    · -- the delivery lies before the vote
      have hrest := ih c hc' (fun x hx => ha x (by rw [hc]; exact List.mem_append_right _ hx))
        fun x hx => hmax x (List.mem_append_right _ hx)
      obtain ⟨d', hd', h⟩ := hrest
      exact ⟨d', List.mem_cons_of_mem _ hd', h⟩
    · cases c with
      | nil =>
        have hrest := ih [] hc'.symm (by simp) fun x hx => hmax x (List.mem_append_right _ hx)
        obtain ⟨d', hd', h⟩ := hrest
        exact ⟨d', List.mem_cons_of_mem _ hd', h⟩
      | cons x c =>
        obtain ⟨rfl, -⟩ := List.cons.inj hc'
        exact ⟨d, List.mem_cons_self, ⟨a, c, hc, ha⟩, fun y hy => hmax y (List.mem_append_left _ hy)⟩

/-- The deliveries that hold a latest acceptable vote of an authority agree on
the first one. -/
def Agreeing (P : VoteParser) (V : VotingPeriod) (deliveries : List Delivery) : Prop :=
  ∀ authority, ∀ d ∈ deliveries, ∀ d' ∈ deliveries, ∀ v v',
    IsFirstGreatest Vote.published (acceptedFrom P V authority d) v →
    IsFirstGreatest Vote.published (acceptedFrom P V authority d') v' →
    (∀ e ∈ deliveries, ∀ w ∈ acceptedFrom P V authority e,
      w.published ≤ v.published ∧ w.published ≤ v'.published) →
    v.voteDigest = v'.voteDigest

/-- With one vote per authority, the set is a map. -/
theorem mem_heldDigests {pending : List Vote} (hone : OnePerAuthority pending)
    {authority digest : Bytes} :
    (authority, digest) ∈ heldDigests pending ↔
      ∃ v, held pending authority = some v ∧ v.voteDigest = digest := by
  constructor
  · intro hm
    obtain ⟨v, hv, he⟩ := hm
    obtain ⟨hid, hd⟩ := Prod.mk.inj he
    cases hh : held pending authority with
    | none =>
      have hno := List.find?_eq_none.mp hh v hv
      exact absurd (by simpa using hid.symm) hno
    | some w =>
      have hwid : w.identityDigest = authority := by
        have := List.find?_some hh
        simpa using this
      have hwv : w = v :=
        List.inj_on_of_nodup_map hone (List.mem_of_find?_eq_some hh) hv (hwid.trans hid)
      exact ⟨w, rfl, by rw [hwv, hd]⟩
  · intro hm
    obtain ⟨v, hh, hd⟩ := hm
    have hid := List.find?_some hh
    exact ⟨v, List.mem_of_find?_eq_some hh, by rw [← hd, ← show v.identityDigest = authority by simpa using hid]⟩

/-- A delivery with a latest vote decides when it comes first. -/
theorem held_of_first {deliveries rest : List Delivery} {d : Delivery}
    (hcr : DigestsTell (deliveredVotes P deliveries)) (hperm : (d :: rest).Perm deliveries)
    {authority : Bytes} {v : Vote}
    (hv : IsFirstGreatest Vote.published (acceptedFrom P V authority d) v)
    (hmax : ∀ e ∈ deliveries, ∀ w ∈ acceptedFrom P V authority e, w.published ≤ v.published) :
    held (collect P V (d :: rest)) authority = some v := by
  rw [held_eq hcr authority fun w hw => (hperm.flatMap_right _).mem_iff.mp hw, firstGreatest_iff,
    List.flatMap_cons]
  refine hv.append fun x hx => ?_
  obtain ⟨e, he, hx⟩ := List.mem_flatMap.mp hx
  exact hmax e (hperm.mem_iff.mp (List.mem_cons_of_mem _ he)) x hx

/-- Agreeing deliveries lead to the same digest in every order. -/
theorem held_digest_perm {deliveries order : List Delivery}
    (hcr : DigestsTell (deliveredVotes P deliveries)) (hagree : Agreeing P V deliveries)
    (hperm : order.Perm deliveries) (authority : Bytes) :
    (held (collect P V order) authority).map Vote.voteDigest
      = (held (collect P V deliveries) authority).map Vote.voteDigest := by
  have hvotes := hperm.flatMap_right (acceptedFrom P V authority)
  rw [held_eq hcr authority fun w hw => (hperm.flatMap_right _).mem_iff.mp hw,
    held_eq hcr authority fun w hw => hw]
  cases hw : firstGreatest Vote.published (order.flatMap (acceptedFrom P V authority)) with
  | none =>
    have hnil := firstGreatest_eq_none.mp hw
    rw [hnil] at hvotes
    rw [firstGreatest_eq_none.mpr hvotes.symm.eq_nil]
  | some w =>
    have hw := firstGreatest_iff.mp hw
    cases hw' : firstGreatest Vote.published (deliveries.flatMap (acceptedFrom P V authority)) with
    | none =>
      rw [firstGreatest_eq_none.mp hw'] at hvotes
      rw [hvotes.eq_nil] at hw
      exact absurd hw.mem (by simp)
    | some w' =>
      have hw' := firstGreatest_iff.mp hw'
      obtain ⟨d, hd, hfirst⟩ := isFirstGreatest_flatMap hw
      obtain ⟨d', hd', hfirst'⟩ := isFirstGreatest_flatMap hw'
      have hdigest := hagree authority d (hperm.mem_iff.mp hd) d' hd' w w' hfirst hfirst'
        fun e he x hx => by
          have hmem := List.mem_flatMap.mpr ⟨e, he, hx⟩
          exact ⟨hw.greatest x (hvotes.mem_iff.mpr hmem), hw'.greatest x hmem⟩
      simp only [Option.map_some, hdigest]

/-- **Collecting votes.** The list never holds two votes of one authority; a
vote that is rejected or discarded leaves it as it was, and a stored one
replaces that authority's vote only; and every order of the deliveries leads to
the same votes exactly when the deliveries with a latest acceptable vote of an
authority agree on the first one. A tie goes to whoever came first. -/
theorem votes_collected_in_any_order {deliveries : List Delivery}
    (hcr : DigestsTell (deliveredVotes P deliveries)) :
    (∀ passes timePosted pending body, OnePerAuthority pending →
        OnePerAuthority (addLoop P V timePosted passes pending body))
      ∧ (∀ timePosted pending vote,
        ((addVote V timePosted pending vote).1 = pending
            ∧ (addVote V timePosted pending vote).2 ≠ .added
            ∧ (addVote V timePosted pending vote).2 ≠ .replaced)
          ∨ ((addVote V timePosted pending vote).2 = .added
              ∨ (addVote V timePosted pending vote).2 = .replaced)
            ∧ held (addVote V timePosted pending vote).1 vote.identityDigest = some vote
            ∧ ∀ authority, authority ≠ vote.identityDigest →
              held (addVote V timePosted pending vote).1 authority = held pending authority)
      ∧ ((∀ order, order.Perm deliveries →
          heldDigests (collect P V order) = heldDigests (collect P V deliveries))
        ↔ Agreeing P V deliveries) := by
  refine ⟨fun passes _ _ body h => addLoop_onePerAuthority passes body h,
    fun timePosted pending vote => (addVote_spec V timePosted pending vote).frame, ?_, ?_⟩
  · intro hsame authority d hd d' hd' v v' hv hv' hmax
    -- the two deliveries, each put first
    have hfirst := List.perm_cons_erase hd
    have hfirst' := List.perm_cons_erase hd'
    have hheld := held_of_first hcr hfirst.symm hv fun e he w hw => (hmax e he w hw).1
    have hheld' := held_of_first hcr hfirst'.symm hv' fun e he w hw => (hmax e he w hw).2
    have hmem : (authority, v.voteDigest) ∈ heldDigests (collect P V (d' :: deliveries.erase d')) := by
      rw [hsame _ hfirst'.symm, ← hsame _ hfirst.symm]
      exact (mem_heldDigests (collect_onePerAuthority _)).mpr ⟨v, hheld, rfl⟩
    obtain ⟨w, hw, hwd⟩ := (mem_heldDigests (collect_onePerAuthority _)).mp hmem
    rw [← hwd, Option.some.inj (hheld'.symm.trans hw)]
  · intro hagree order hperm
    ext ⟨authority, digest⟩
    have hmap := held_digest_perm hcr hagree hperm authority
    rw [mem_heldDigests (collect_onePerAuthority _), mem_heldDigests (collect_onePerAuthority _),
      ← Option.map_eq_some_iff, ← Option.map_eq_some_iff, hmap]

end Period

/-- A text of one byte is a vote of authority 9 with that digest. -/
def sampleParser : VoteParser where
  parse
    | [] => none
    | b :: rest => some (⟨[9], 5, 0, [b]⟩, rest)
  shorter := by
    intro body vote rest h
    cases body with
    | nil => exact absurd h (by simp)
    | cons b body =>
      simp only [Option.some.injEq, Prod.mk.injEq] at h
      rw [← h.2]
      exact Nat.lt_succ_self _

/-- Authority 9 is recognized; the period starts at 0. -/
def samplePeriod : VotingPeriod := ⟨fun id => id = [9], 0, 10⟩

/-- Two deliveries of one vote lead to it in either order. -/
theorem votes_collected_twice :
    DigestsTell (deliveredVotes sampleParser [⟨[1], 0⟩, ⟨[1], 3⟩])
      ∧ Agreeing sampleParser samplePeriod [⟨[1], 0⟩, ⟨[1], 3⟩]
      ∧ heldDigests (collect sampleParser samplePeriod [⟨[1], 3⟩, ⟨[1], 0⟩])
        = heldDigests (collect sampleParser samplePeriod [⟨[1], 0⟩, ⟨[1], 3⟩]) := by
  have hvotes : votesOf sampleParser [1] = [⟨[9], 5, 0, [1]⟩] := by
    rw [votesOf]
    rfl
  have hall : ∀ v ∈ deliveredVotes sampleParser [⟨[1], 0⟩, ⟨[1], 3⟩], v = ⟨[9], 5, 0, [1]⟩ := by
    simp [deliveredVotes, hvotes]
  have hcr : DigestsTell (deliveredVotes sampleParser [⟨[1], 0⟩, ⟨[1], 3⟩]) := by
    intro v hv w hw _ _
    rw [hall v hv, hall w hw]
  have hfrom : ∀ authority, ∀ d ∈ [(⟨[1], 0⟩ : Delivery), ⟨[1], 3⟩], ∀ v,
      IsFirstGreatest Vote.published (acceptedFrom sampleParser samplePeriod authority d) v →
      v.voteDigest = [1] := by
    intro authority d hd v hv
    rw [hall v (List.mem_flatMap.mpr ⟨d, hd, List.mem_of_mem_filter hv.mem⟩)]
  have hagree : Agreeing sampleParser samplePeriod [⟨[1], 0⟩, ⟨[1], 3⟩] := by
    intro authority d hd d' hd' v v' hv hv' _
    rw [hfrom authority d hd v hv, hfrom authority d' hd' v' hv']
  exact ⟨hcr, hagree,
    (votes_collected_in_any_order hcr).2.2.mpr hagree _ (List.Perm.swap _ _ _)⟩

/-- **The first of two votes with one publication time stays.** -/
theorem tied_votes_first_kept :
    ∃ x, x ∈ heldDigests (collect sampleParser samplePeriod [⟨[1], 0⟩, ⟨[2], 0⟩])
      ∧ x ∉ heldDigests (collect sampleParser samplePeriod [⟨[2], 0⟩, ⟨[1], 0⟩]) := by
  have hfirst : collect sampleParser samplePeriod [⟨[1], 0⟩, ⟨[2], 0⟩] = [⟨[9], 5, 0, [1]⟩] := by
    decide
  have hsecond : collect sampleParser samplePeriod [⟨[2], 0⟩, ⟨[1], 0⟩] = [⟨[9], 5, 0, [2]⟩] := by
    decide
  rw [hfirst, hsecond]
  refine ⟨([9], [1]), ⟨_, List.mem_singleton.mpr rfl, rfl⟩, fun hmem => ?_⟩
  obtain ⟨v, hv, hd⟩ := hmem
  rw [List.mem_singleton.mp hv] at hd
  exact absurd hd (by decide)

end Dittor.Tor

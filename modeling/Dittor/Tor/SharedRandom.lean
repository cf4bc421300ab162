import Mathlib
import Dittor.Lib.Decimal
import Dittor.Lib.Qsort
import Dittor.Tor.Base64
import Mathlib.Data.List.AList

/-!
# Shared randomness (`shared_random.c`, `shared_random_state.c`)

The authorities compute a random value together once a day. In the commit phase each puts the
hash of its random value into its votes, in the reveal phase the value; at the end the values are
hashed together. A vote also relays what its authority knows of the others.

`SrState` is the state of one authority and `SrState.step` what changes it: a vote that was
received, and `sr_state_update` before each round of voting. The disk copy of the state is left
out. The algorithm of a commit is always SHA3-256, which is a parameter, and `valid` is set on
every commit before it is stored.
-/

namespace Dittor.Tor

open Dittor.Lib

/-- `sr_srv_t` -/
structure SrSrv where
  numReveals : ℕ
  value : Bytes
deriving DecidableEq

/-- `sr_commit_t`; texts without the bytes behind their end. -/
structure SrCommit where
  rsaIdentity : Bytes
  commitTs : ℕ
  hashedReveal : Bytes
  encodedCommit : Bytes
  revealTs : ℕ := 0
  randomNumber : Bytes := List.replicate 32 0
  encodedReveal : Bytes := []
deriving DecidableEq

/-- `sr_phase_t` -/
inductive SrPhase where
  | commit
  | reveal
deriving DecidableEq, Repr

/-- `digestmap_t` of commits, by identity. -/
abbrev CommitMap := AList fun _ : Bytes => SrCommit

/-- `sr_state_t` -/
structure SrState where
  phase : SrPhase
  validAfter : ℕ := 0
  commits : CommitMap := ∅
  previousSrv : Option SrSrv := none
  currentSrv : Option SrSrv := none
  isSrvFresh : Bool := false
  nCommitRounds : ℕ := 0
  nRevealRounds : ℕ := 0
  nProtocolRuns : ℕ := 0

/-- What an authority works with: SHA3-256, the identities of the configured v3 authorities, its
own, the voting interval, and how the library sorts and goes through a map. -/
structure SrContext where
  sha3 : Bytes → Bytes
  authorities : List Bytes
  ourIdentity : Bytes
  votingInterval : ℕ
  qsort : Qsort
  iterate : CommitMap → List SrCommit
  iterate_perm : ∀ m, (iterate m).Perm (m.entries.map Sigma.snd)

/-- The `k` low bytes of a number in network order. -/
def bigEndian (k n : ℕ) : Bytes := (List.range k).reverse.map fun i => UInt8.ofNat (n / 256 ^ i)

/-- The number of some bytes in network order. -/
def ofBigEndian (b : Bytes) : ℕ := b.foldl (fun n d => n * 256 + d.toNat) 0

/-! ## Commits -/

/-- `SR_COMMIT_LEN` and `SR_REVEAL_LEN` -/
def srCommitLen : ℕ := 40

/-- `SR_COMMIT_BASE64_LEN` and `SR_REVEAL_BASE64_LEN` -/
def srCommitBase64Len : ℕ := 56

/-- The two fields of 40 bytes in base64: a time, and 32 bytes. -/
def srDecode (encoded : Bytes) : Option (ℕ × Bytes) :=
  if encoded.length > srCommitBase64Len then none
  else
    match base64Decode encoded with
    | none => none
    | some decoded =>
      if decoded.length ≠ srCommitLen then none
      else some (ofBigEndian (decoded.take 8), decoded.drop 8)

/-- `sr_parse_commit`: version, algorithm, fingerprint, commit and perhaps reveal. A version that
is no number counts as zero, and what stands behind the 40th character of a fingerprint is not
read. -/
def srParseCommit : List Bytes → Option SrCommit
  | version :: algname :: fpr :: value :: rest =>
    if ((torParseUlong 1 4294967295 version).getD 0) > 1 then none
    else if algname ≠ cstring "sha3-256" then none
    else if fpr.length < 40 then none
    else
      match base16Decode (fpr.take 40), srDecode value with
      | some digest, some (ts, hashed) =>
        let commit : SrCommit :=
          { rsaIdentity := digest, commitTs := ts, hashedReveal := hashed, encodedCommit := value }
        match rest with
        | [] => some commit
        | reveal :: _ =>
          (srDecode reveal).map fun r =>
            { commit with revealTs := r.1, randomNumber := r.2, encodedReveal := reveal }
      | _, _ => none
  | _ => none

/-- `commit_has_reveal_value` -/
def SrCommit.hasRevealValue (c : SrCommit) : Bool := c.encodedReveal ≠ []

/-- The array of the encoded reveal value, of `SR_REVEAL_BASE64_LEN` bytes. -/
def SrCommit.revealArray (c : SrCommit) : Bytes :=
  c.encodedReveal ++ List.replicate (srCommitBase64Len - c.encodedReveal.length) 0

section Context

variable (X : SrContext)

/-- `verify_commit_and_reveal` -/
def verifyCommitAndReveal (c : SrCommit) : Bool :=
  c.commitTs = c.revealTs && X.sha3 c.revealArray = c.hashedReveal

/-- `commitments_are_the_same` -/
def commitmentsAreTheSame (a b : SrCommit) : Bool := a.encodedCommit = b.encodedCommit

/-- `should_keep_commit` -/
def shouldKeepCommit (s : SrState) (c : SrCommit) (voterKey : Bytes) : Bool :=
  -- `commit_is_authoritative`
  c.rsaIdentity = voterKey && c.rsaIdentity ∈ X.authorities &&
    match s.phase, s.commits.lookup c.rsaIdentity with
    | .commit, none => !c.hasRevealValue
    | .commit, some _ => false
    | .reveal, none => false
    | .reveal, some saved =>
      commitmentsAreTheSame c saved && !saved.hasRevealValue && c.hasRevealValue
        && verifyCommitAndReveal X c

/-- `sr_state_add_commit` -/
def SrState.addCommit (s : SrState) (c : SrCommit) : SrState :=
  { s with commits := s.commits.insert c.rsaIdentity c }

/-- `sr_state_copy_reveal_info` -/
def SrCommit.copyRevealInfo (saved c : SrCommit) : SrCommit :=
  { saved with
    revealTs := c.revealTs, randomNumber := c.randomNumber, encodedReveal := c.encodedReveal }

/-- `save_commit_to_state`; in the reveal phase a saved commit is there. -/
def SrState.saveCommit (s : SrState) (c : SrCommit) : SrState :=
  match s.phase, s.commits.lookup c.rsaIdentity with
  | .commit, _ => s.addCommit c
  | .reveal, some saved =>
    { s with commits := s.commits.insert c.rsaIdentity (saved.copyRevealInfo c) }
  | .reveal, none => s

/-- The loop body of `sr_handle_received_commits`. -/
def SrState.receive (voterKey : Bytes) (s : SrState) (c : SrCommit) : SrState :=
  if shouldKeepCommit X s c voterKey then s.saveCommit c else s

/-- `sr_handle_received_commits` -/
def SrState.handleReceivedCommits (s : SrState) (commits : List SrCommit) (voterKey : Bytes) :
    SrState :=
  commits.foldl (SrState.receive X voterKey) s

/-! ## The value -/

/-- `get_srv_element_from_commit` -/
def srvElement (c : SrCommit) : Option Bytes :=
  if c.hasRevealValue then some (base16Encode c.rsaIdentity ++ c.encodedReveal) else none

/-- `compare_reveal_` -/
def compareReveal (a b : SrCommit) : ℤ := strcmp a.hashedReveal b.hashedReveal

/-- `generate_srv` -/
def generateSrv (hashedReveals : Bytes) (revealNum : ℕ) (previousSrv : Option SrSrv) : SrSrv where
  numReveals := revealNum
  value := X.sha3 (cstring "shared-random" ++ bigEndian 8 revealNum ++ bigEndian 4 1
    ++ hashedReveals ++ (previousSrv.map (·.value)).getD (List.replicate 32 0))

/-- The value of the commits in the order the map gives them. -/
def srvOfCommits (l : List SrCommit) (previousSrv : Option SrSrv) : SrSrv :=
  let commits := X.qsort.sort compareReveal (l.filter fun c => c.rsaIdentity ∈ X.authorities)
  let chunks := commits.filterMap srvElement
  generateSrv X (X.sha3 chunks.flatten) chunks.length previousSrv

/-- `sr_compute_srv` -/
def SrState.computeSrv (s : SrState) : SrState :=
  if s.phase ≠ .reveal then s
  else { s with
    currentSrv := some (srvOfCommits X (X.iterate s.commits) s.previousSrv), isSrvFresh := true }

/-- `state_rotate_srv` -/
def SrState.rotateSrv (s : SrState) : SrState :=
  { s with previousSrv := s.currentSrv, currentSrv := none }

/-! ## Runs of the protocol -/

/-- `SHARED_RANDOM_N_ROUNDS * SHARED_RANDOM_N_PHASES` -/
def srTotalRounds : ℕ := 24

/-- `get_sr_protocol_phase` -/
def getSrProtocolPhase (validAfter : ℕ) : SrPhase :=
  if validAfter / X.votingInterval % srTotalRounds < 12 then .commit else .reveal

/-- `sr_generate_our_commit`, with the random number. -/
def generateOurCommit (timestamp : ℕ) (rand : Bytes) : SrCommit :=
  let encodedReveal := base64Chars (bigEndian 8 timestamp ++ rand)
  let hashedReveal := X.sha3 encodedReveal
  { rsaIdentity := X.ourIdentity
    commitTs := timestamp
    revealTs := timestamp
    randomNumber := rand
    encodedReveal := encodedReveal
    hashedReveal := hashedReveal
    encodedCommit := base64Chars (bigEndian 8 timestamp ++ hashedReveal) }

/-- Our commitment is added, if one could be made. -/
def SrState.addOurCommit (s : SrState) (timestamp : ℕ) (rand : Option Bytes) : SrState :=
  match rand with
  | none => s
  | some rand => s.addCommit (generateOurCommit X timestamp rand)

/-- `reset_state_for_new_protocol_run` -/
def SrState.resetForNewProtocolRun (s : SrState) (validAfter : ℕ) : SrState :=
  { s with
    nRevealRounds := 0, nCommitRounds := 0, nProtocolRuns := s.nProtocolRuns + 1
    validAfter := validAfter, commits := ∅ }

/-- `new_protocol_run` -/
def SrState.newProtocolRun (s : SrState) (validAfter : ℕ) (rand : Option Bytes) : SrState :=
  let s := if s.phase = .reveal then s.rotateSrv.computeSrv X else s
  (s.resetForNewProtocolRun validAfter).addOurCommit X validAfter rand

/-- The change of phase in `sr_state_update`. -/
def SrState.enterPhase (s : SrState) (validAfter : ℕ) (rand : Option Bytes) : SrState :=
  let nextPhase := getSrProtocolPhase X validAfter
  if s.phase ≠ nextPhase then
    let s := if nextPhase = .commit then s.newProtocolRun X validAfter rand else s
    { s with phase := nextPhase }
  else if s.phase = .commit ∧ s.commits.entries.length = 0 then
    -- chances are that we are booting up
    s.addOurCommit X validAfter rand
  else s

/-- The end of `sr_state_update`. -/
def SrState.countRound (s : SrState) : SrState :=
  if s.phase = .commit then
    if s.nRevealRounds ≠ 0 then s else { s with nCommitRounds := s.nCommitRounds + 1 }
  else { s with nRevealRounds := s.nRevealRounds + 1 }

/-- `sr_state_update` -/
def SrState.update (s : SrState) (validAfter : ℕ) (rand : Option Bytes) : SrState :=
  if validAfter ≤ s.validAfter then s
  else { s.enterPhase X validAfter rand with validAfter := validAfter }.countRound

/-- `state_new`: the state of an authority that starts. -/
def stateNew (now : ℕ) : SrState := { phase := getSrProtocolPhase X now }

/-- What happens to a state: the vote of an authority with its lines of commits, or the next
round, with a random number for a commitment of our own. -/
inductive SrEvent where
  | vote (voterKey : Bytes) (lines : List (List Bytes))
  | update (validAfter : ℕ) (rand : Option Bytes)

/-- One event. -/
def SrState.step (s : SrState) : SrEvent → SrState
  | .vote voterKey lines => s.handleReceivedCommits X (lines.filterMap srParseCommit) voterKey
  | .update validAfter rand => s.update X validAfter rand

/-- All events. -/
def SrState.run (s : SrState) (events : List SrEvent) : SrState := events.foldl (SrState.step X) s

end Context

end Dittor.Tor

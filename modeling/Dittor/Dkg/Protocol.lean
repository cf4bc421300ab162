import Dittor.Crypto.CA
import Dittor.Lib.Run
import Mathlib.Data.List.AList
import Mathlib.Data.Finset.Card

/-!
# The DKG state machine of one CA (`CAProtocol.java`)

One CA process: its maps of received hashes, commitments, public keys and
shares, the set of disqualified ids, and the phase
`AWAITING_HASHES → AWAITING_REVEALS → AWAITING_SHARES → DONE`. Every handler
of the source is a function from the state to an `Outcome`: new state, sent
messages, exception. The three phase checks are nested as in the source
(`checkHashPhaseComplete` ends in `checkRevealPhaseComplete`, which ends in
`checkSharePhaseComplete`) and are called from the same places.

Java's `HashMap<Integer, …>` is an `AList` (unique keys, iterated in the order
of its list) and `HashSet<Integer>` a `Finset`; ids are integers, since nothing
bounds the ids a message may carry. The order in which a `HashMap` is iterated
is unspecified; here it only orders sums, products and messages to different
hosts. The handlers receive the sending host and do not look at it, so it is
not an argument. The destination protocol `200 + id` is a function of the id
and left out, as are the log lines.
-/

namespace Dittor.Dkg

open Dittor.Lib Dittor.Crypto

/-- `Host`: an address and a port. -/
structure Host where
  address : String
  port : ℕ
deriving DecidableEq, Repr

/-- `DkgState` -/
inductive DkgState where
  | awaitingHashes
  | awaitingReveals
  | awaitingShares
  | done
deriving DecidableEq, Repr

/-- The four DKG messages, as their deserializers produce them. -/
inductive DkgMsg (p : ℕ) (G1 G2 : Type) where
  /-- `DKGCommitmentHashMsg` -/
  | commitmentHash (senderID : ℤ) (commitmentHash : Text)
  /-- `DKGRevealMsg` -/
  | reveal (senderID : ℤ) (content : Reveal G1 G2)
  /-- `DKGShareMsg` -/
  | share (senderID : ℤ) (secretShare blindingShare : ZMod p)
  /-- `DKGComplaintMsg` -/
  | complaint (senderID accusedId : ℤ) (reason : String)

/-- The fields of `CAProtocol` that change; `none` is the Java `null`. -/
structure CAState (p : ℕ) (G1 G2 : Type) where
  caID : ℤ
  cryptoCA : CA p G1 G2 := {}
  /-- The entries of `hostToPeerId`. -/
  hostToPeerId : Option (List (Host × ℤ)) := none
  threshold : ℕ := 0
  n : ℕ := 0
  state : DkgState := .awaitingHashes
  myCommitmentHash : Option Text := none
  connectedPeerIds : Finset ℤ := ∅
  receivedHashes : AList (fun _ : ℤ => Text) := ∅
  disqualifiedIds : Finset ℤ := ∅
  receivedCommitments : AList (fun _ : ℤ => List G1) := ∅
  receivedPubKeyG1 : AList (fun _ : ℤ => G1) := ∅
  receivedPubKeyG2 : AList (fun _ : ℤ => G2) := ∅
  receivedSecretShares : AList (fun _ : ℤ => ZMod p) := ∅

/-- A handler's result: sent messages carry their destination. -/
abbrev Result (p : ℕ) (G1 G2 : Type) :=
  Outcome (CAState p G1 G2) (Host × DkgMsg p G1 G2) JavaException

namespace CAState

variable {p : ℕ} {G1 G2 GT : Type} [CommGroup G1] [CommGroup G2] [CommGroup GT]
  [DecidableEq G1] (S : CryptimeleonSetup p G1 G2 GT)

/-! ## The updates the handlers are made of -/

/-- `receivedHashes.put` -/
def putHash (s : CAState p G1 G2) (id : ℤ) (h : Text) : CAState p G1 G2 :=
  { s with receivedHashes := s.receivedHashes.insert id h }

/-- The three `put`s of an accepted reveal. -/
def putReveal (s : CAState p G1 G2) (id : ℤ) (r : Reveal G1 G2) : CAState p G1 G2 :=
  { s with receivedCommitments := s.receivedCommitments.insert id r.commitmentsG1
           receivedPubKeyG1 := s.receivedPubKeyG1.insert id r.pubKeyG1
           receivedPubKeyG2 := s.receivedPubKeyG2.insert id r.pubKeyG2 }

/-- `receivedSecretShares.put` -/
def putShare (s : CAState p G1 G2) (id : ℤ) (share : ZMod p) : CAState p G1 G2 :=
  { s with receivedSecretShares := s.receivedSecretShares.insert id share }

/-- `disqualifiedIds.add` -/
def disqualify (s : CAState p G1 G2) (id : ℤ) : CAState p G1 G2 :=
  { s with disqualifiedIds := insert id s.disqualifiedIds }

/-- `connectedPeerIds.add` -/
def connect (s : CAState p G1 G2) (id : ℤ) : CAState p G1 G2 :=
  { s with connectedPeerIds := insert id s.connectedPeerIds }

/-- The ids whose reveal is accounted for: received or disqualified. -/
def accountedReveals (s : CAState p G1 G2) : Finset ℤ :=
  s.receivedCommitments.keys.toFinset ∪ s.disqualifiedIds

/-- The ids whose share is accounted for. -/
def accountedShares (s : CAState p G1 G2) : Finset ℤ :=
  s.receivedSecretShares.keys.toFinset ∪ s.disqualifiedIds

/-- `qualifiedIds`, in the order the maps are iterated. -/
def qualifiedIds (s : CAState p G1 G2) : List ℤ :=
  s.receivedCommitments.keys.filter (· ∉ s.disqualifiedIds)

/-! ## The phase checks -/

/-- The call of `finalizeDKG` at the end of the share phase. -/
def finalize (s : CAState p G1 G2) : CA p G1 G2 × Option JavaException :=
  s.cryptoCA.finalizeDKG
    (s.qualifiedIds.map fun id => s.receivedSecretShares.lookup id)
    (s.qualifiedIds.map fun id => s.receivedPubKeyG1.lookup id)
    (s.qualifiedIds.map fun id => s.receivedPubKeyG2.lookup id)

/-- `checkSharePhaseComplete` -/
def checkSharePhaseComplete (s : CAState p G1 G2) : Result p G1 G2 :=
  if s.state ≠ .awaitingShares then { state := s }
  else if s.accountedShares.card < s.n then { state := s }
  else if s.qualifiedIds.length < s.threshold then { state := s }
  else match s.finalize with
  | (ca, some e) => { state := { s with cryptoCA := ca }, thrown := some e }
  | (ca, none) => { state := { s with cryptoCA := ca, state := .done } }

/-- The share messages of `checkRevealPhaseComplete`. -/
def shareMessages (s : CAState p G1 G2) (peers : List (Host × ℤ)) (c : Coefficients p) :
    List (Host × DkgMsg p G1 G2) :=
  (peers.filter fun e => e.2 ∉ s.disqualifiedIds).map fun e =>
    (e.1, .share s.caID (evaluatePolynomial c.secretCoefficients e.2)
      (evaluatePolynomial c.blindingCoefficients e.2))

/-- `checkRevealPhaseComplete`. A `null` polynomial throws after the state moved. -/
def checkRevealPhaseComplete (s : CAState p G1 G2) : Result p G1 G2 :=
  if s.state ≠ .awaitingReveals then { state := s }
  else if s.accountedReveals.card < s.n then { state := s }
  else
    let s := { s with state := .awaitingShares }
    match s.hostToPeerId, s.cryptoCA.coefficients with
    | some peers, some c =>
      let s := s.putShare s.caID (evaluatePolynomial c.secretCoefficients s.caID)
      (Outcome.mk s (s.shareMessages peers c) none).andThen checkSharePhaseComplete
    | _, _ => { state := s, thrown := some .nullPointer }

/-- The reveal messages of `checkHashPhaseComplete`. -/
def revealMessages (s : CAState p G1 G2) (peers : List (Host × ℤ)) (r : Reveal G1 G2) :
    List (Host × DkgMsg p G1 G2) :=
  peers.map fun e => (e.1, .reveal s.caID r)

/-- `checkHashPhaseComplete` -/
def checkHashPhaseComplete (s : CAState p G1 G2) : Result p G1 G2 :=
  if s.state ≠ .awaitingHashes then { state := s }
  else match s.hostToPeerId with
  | none => { state := s }
  | some peers =>
    if s.receivedHashes.keys.length < s.n then { state := s }
    else if s.connectedPeerIds.card < peers.length then { state := s }
    else
      let s := { s with state := .awaitingReveals }
      match s.cryptoCA.published with
      | none => { state := s, thrown := some .nullPointer }
      | some r =>
        let s := s.putReveal s.caID r
        (Outcome.mk s (s.revealMessages peers r) none).andThen checkRevealPhaseComplete

/-! ## The handlers -/

/-- `startDKG`; the arguments `secret` and `blinding` are the random draws. -/
def startDKG (s : CAState p G1 G2) (peerHosts : List (Host × ℤ)) (threshold n : ℕ)
    (secret blinding : ℕ → ZMod p) : Result p G1 G2 :=
  let c := generatePrivatePolynomial threshold secret blinding
  let s := { s with hostToPeerId := some peerHosts, threshold := threshold, n := n
                    cryptoCA := { s.cryptoCA with coefficients := some c } }
  match computeCommitments S c with
  | none => { state := s, thrown := some .indexOutOfBounds }
  | some r =>
    let s := { s with cryptoCA := { s.cryptoCA with published := some r }
                      myCommitmentHash := some (hashCommitments S r) }
    (s.putHash s.caID (hashCommitments S r)).checkHashPhaseComplete

/-- `onOutConnectionUp`. The own hash is set whenever `hostToPeerId` is, since
`startDKG` sets both; a `null` could not be sent. -/
def onOutConnectionUp (s : CAState p G1 G2) (target : Host) : Result p G1 G2 :=
  match s.hostToPeerId.bind fun peers => peers.lookup target with
  | none => { state := s }
  | some peerId =>
    match s.myCommitmentHash, s.cryptoCA.published with
    | some h, some r =>
      if s.state ≠ .awaitingHashes then
        -- late connection: the hashes are out, so the reveal is sent again
        { state := s.connect peerId
          sent := [(target, .commitmentHash s.caID h), (target, .reveal s.caID r)] }
      else
        (Outcome.mk (s.connect peerId) [(target, .commitmentHash s.caID h)] none).andThen
          checkHashPhaseComplete
    | _, _ => { state := s, thrown := some .nullPointer }

/-- `handleCommitmentHash` -/
def handleCommitmentHash (s : CAState p G1 G2) (sender : ℤ) (h : Text) : Result p G1 G2 :=
  let s := s.putHash sender h
  if s.state = .awaitingHashes then s.checkHashPhaseComplete else { state := s }

/-- The complaint messages of `broadcastComplaint`. -/
def complaintMessages (s : CAState p G1 G2) (peers : List (Host × ℤ)) (accusedId : ℤ)
    (reason : String) : List (Host × DkgMsg p G1 G2) :=
  (peers.filter fun e => e.2 ≠ accusedId).map fun e =>
    (e.1, .complaint s.caID accusedId reason)

/-- `broadcastComplaint`; before `startDKG` the map is `null` and the loop throws. -/
def broadcastComplaint (s : CAState p G1 G2) (accusedId : ℤ) (reason : String) :
    Result p G1 G2 :=
  match s.hostToPeerId with
  | none => { state := s, thrown := some .nullPointer }
  | some peers => { state := s, sent := s.complaintMessages peers accusedId reason }

/-- `handleReveal` -/
def handleReveal (s : CAState p G1 G2) (sender : ℤ) (r : Reveal G1 G2) : Result p G1 G2 :=
  match s.receivedHashes.lookup sender with
  | none =>
    ((s.disqualify sender).broadcastComplaint sender
      "revealed before publishing commitment hash").andThen checkRevealPhaseComplete
  | some h =>
    if hashCommitments S r ≠ h then
      ((s.disqualify sender).broadcastComplaint sender
        "revealed commitments do not match published hash").andThen checkRevealPhaseComplete
    else
      let s := s.putReveal sender r
      if s.state = .awaitingReveals then s.checkRevealPhaseComplete else { state := s }

/-- `handleShare` -/
def handleShare (s : CAState p G1 G2) (sender : ℤ) (secretShare blindingShare : ZMod p) :
    Result p G1 G2 :=
  if sender ∈ s.disqualifiedIds then { state := s }
  else match s.receivedCommitments.lookup sender with
  | none => { state := s }
  | some senderCommitments =>
    match verifyShare S secretShare blindingShare senderCommitments s.caID with
    | none => { state := s, thrown := some .indexOutOfBounds }
    | some false =>
      ((s.disqualify sender).broadcastComplaint sender "share failed verification").andThen
        checkSharePhaseComplete
    | some true =>
      let s := s.putShare sender secretShare
      if s.state = .awaitingShares then s.checkSharePhaseComplete else { state := s }

/-- `handleComplaint` -/
def handleComplaint (s : CAState p G1 G2) (accusedId : ℤ) : Result p G1 G2 :=
  let s := s.disqualify accusedId
  match s.state with
  | .awaitingReveals => s.checkRevealPhaseComplete
  | .awaitingShares => s.checkSharePhaseComplete
  | _ => { state := s }

/-- The handler `init` registers for each message. -/
def handle (s : CAState p G1 G2) : DkgMsg p G1 G2 → Result p G1 G2
  | .commitmentHash sender h => s.handleCommitmentHash sender h
  | .reveal sender r => s.handleReveal S sender r
  | .share sender ss bs => s.handleShare S sender ss bs
  | .complaint _ accused _ => s.handleComplaint accused

end CAState

end Dittor.Dkg

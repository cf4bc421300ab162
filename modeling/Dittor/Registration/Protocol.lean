import Dittor.Crypto.User
import Dittor.Crypto.DA
import Dittor.Dkg.Protocol

/-!
# Issuing a credential and registering a relay

The three protocols a relay operator takes part in: `UserProtocol.java` asks
the CAs for signature shares, recombines them once `threshold` of them are in,
and sends a registration to the directory authority; `CAProtocol.java` answers
a credential request when its key generation is done; `DAProtocol.java` checks
a registration and enters it into the registry.

As in the key generation, a handler is a function to an `Outcome`, and
`HashMap<Integer, …>` is an `AList`. `receivedShares.keySet()` and `.values()`
are iterated in the same order. The `last…` fields of `UserProtocol` only feed
the demo's descriptor printer and are left out, like the log lines; the local
`verifyCredential` of `handleCredentialReply` is only logged.
-/

namespace Dittor.Registration

open Dittor.Lib Dittor.Crypto Dittor.Dkg

/-- `RegisterRelayMsg` -/
structure RegisterRelayMsg (p : ℕ) (G1 G2 GT : Type) where
  userPublicKeyG2 : G2
  vrfData : VRFResult G1 GT
  credentialCommitmentG1 : G1
  credential : G1
  dleqProof : Proof p
  context : Text
  nodeId : Text
  familyIds : List Text

/-- `RegisterRelayReplyMsg` -/
structure RegisterRelayReplyMsg where
  success : Bool
  statusMessage : String
deriving DecidableEq, Repr

/-- `CredentialReplyMsg` -/
structure CredentialReplyMsg (G1 : Type) where
  caID : ℤ
  signatureShare : G1

/-- What `UserProtocol` hands to the network; a destination may be `null`. -/
inductive UserAction (p : ℕ) (G1 G2 GT : Type) where
  | openConnection (target : Option Host)
  /-- `CredentialRequestMsg` to the CA with this id. -/
  | credentialRequest (target : Host) (caID : ℤ) (blindedCommitment : Option G1)
  | register (target : Host) (msg : RegisterRelayMsg p G1 G2 GT)

/-- The fields of `UserProtocol`; `none` is the Java `null`. -/
structure UserState (p : ℕ) (G1 G2 : Type) where
  cryptoUser : User p
  threshold : ℕ
  mpkG1 : G1
  mpkG2 : G2
  nodeId : Text
  familyIds : List Text
  daHost : Option Host := none
  caHostToIDMap : AList (fun _ : Host => ℤ) := ∅
  blindedCommitment : Option G1 := none
  receivedShares : AList (fun _ : ℤ => G1) := ∅
  thresholdReached : Bool := false
  credential : Option G1 := none

abbrev UserResult (p : ℕ) (G1 G2 GT : Type) :=
  Outcome (UserState p G1 G2) (UserAction p G1 G2 GT) JavaException

/-- The context of `sendRegistrationToDA` and of the Tor patch. -/
def torContext : Text := "TorRelayConsensus2026".toList

/-! ## The user -/

section User

variable {p : ℕ} {G1 G2 GT : Type} [CommGroup G1] [CommGroup G2] [CommGroup GT]
  (S : CryptimeleonSetup p G1 G2 GT)

/-- The message `sendRegistrationToDA` puts together; `none` when the VRF throws.
The draw `k` is that of the linkage proof. -/
def honestRegistration (u : User p) (k : ZMod p) (credential : G1) (context nodeId : Text)
    (familyIds : List Text) : Option (RegisterRelayMsg p G1 G2 GT) :=
  (u.generateVRFPseudonym S context).map fun vrfResult =>
    let credentialCommitmentG1 := u.getCredentialCommitmentG1 S.pairing.g1
    { userPublicKeyG2 := u.getPublicKeyG2 S
      vrfData := vrfResult
      credentialCommitmentG1 := credentialCommitmentG1
      credential := credential
      dleqProof := u.generateDLEQProof S k credentialCommitmentG1 context
      context := context
      nodeId := nodeId
      familyIds := familyIds }

namespace UserState

/-- `startRegistration`, with the bases `baseG = g1` and `baseH = h1` of `Main`. -/
def startRegistration (s : UserState p G1 G2) (targetCAs : AList (fun _ : Host => ℤ))
    (targetDA : Host) : UserResult p G1 G2 GT :=
  let s := { s with
    blindedCommitment := some (s.cryptoUser.createBlindedCommit S.pairing.g1 S.h1)
    daHost := some targetDA
    caHostToIDMap := targetCAs ∪ s.caHostToIDMap }
  { state := s, sent := s.caHostToIDMap.keys.map fun h => .openConnection (some h) }

/-- `sendRegistrationToDA` with the draw `k`. A `null` credential makes the
message's serializer throw. -/
def sendRegistrationToDA (s : UserState p G1 G2) (k : ZMod p) (daHost : Host) :
    UserResult p G1 G2 GT :=
  match s.credential with
  | none => { state := s, thrown := some .nullPointer }
  | some credential =>
    match honestRegistration S s.cryptoUser k credential torContext s.nodeId s.familyIds with
    | none => { state := s, thrown := some .arithmetic }
    | some msg => { state := s, sent := [.register daHost msg] }

/-- `onOutConnectionUp` -/
def onOutConnectionUp (s : UserState p G1 G2) (k : ZMod p) (target : Host) :
    UserResult p G1 G2 GT :=
  if s.daHost = some target then s.sendRegistrationToDA S k target
  else match s.caHostToIDMap.lookup target with
  | some caID => { state := s, sent := [.credentialRequest target caID s.blindedCommitment] }
  | none => { state := s }

/-- `receivedShares.put` -/
def putShare (s : UserState p G1 G2) (caID : ℤ) (share : G1) : UserState p G1 G2 :=
  { s with receivedShares := s.receivedShares.insert caID share }

/-- `handleCredentialReply` -/
def handleCredentialReply (s : UserState p G1 G2) (msg : CredentialReplyMsg G1) :
    UserResult p G1 G2 GT :=
  let s := s.putShare msg.caID msg.signatureShare
  if s.threshold ≤ s.receivedShares.keys.length ∧ s.thresholdReached = false then
    let s := { s with thresholdReached := true }
    let signerIDs := s.receivedShares.keys
    let sigShares := s.receivedShares.entries.map fun e => e.2
    match User.aggregateShares p sigShares signerIDs with
    | none => { state := s, thrown := some .arithmetic }
    | some aggregated =>
      { state := { s with credential := some (s.cryptoUser.unblindSignature aggregated s.mpkG1) }
        sent := [.openConnection s.daHost] }
  else { state := s }

/-- The replies of a run, handled one after the other. -/
def handleReplies (s : UserState p G1 G2) (replies : List (CredentialReplyMsg G1)) :
    UserResult p G1 G2 GT :=
  replies.foldl (fun o msg => o.andThen fun s => s.handleCredentialReply msg) { state := s }

end UserState

end User

/-! ## The CA and the DA -/

section Authorities

variable {p : ℕ} {G1 G2 GT : Type} [CommGroup G1] [CommGroup G2] [CommGroup GT]

/-- `CAProtocol.handleCredentialRequest` -/
def handleCredentialRequest (s : CAState p G1 G2) (blindedCommitment : G1) :
    Outcome (CAState p G1 G2) (CredentialReplyMsg G1) JavaException :=
  if s.state ≠ .done then { state := s }
  else match s.cryptoCA.issueSignatureShare blindedCommitment with
  | none => { state := s, thrown := some .nullPointer }
  | some share => { state := s, sent := [{ caID := s.caID, signatureShare := share }] }

variable [DecidableEq GT] (S : CryptimeleonSetup p G1 G2 GT)

/-- The two checks both entry points of the DA make on a registration. -/
def authorizes (da : DA G2) (msg : RegisterRelayMsg p G1 G2 GT) : Bool :=
  let isVrfValid := DA.verifyVrf S msg.userPublicKeyG2 msg.vrfData msg.context
  let isCredentialValid := da.verifyCredentialLinkage S msg.userPublicKeyG2
    msg.credentialCommitmentG1 msg.credential msg.dleqProof msg.context
  isVrfValid && isCredentialValid

/-- `DAProtocol.handleRegisterRelay` -/
def handleRegisterRelay (da : DA G2) (msg : RegisterRelayMsg p G1 G2 GT) (sender : Host) :
    Outcome (DA G2) (Host × RegisterRelayReplyMsg) JavaException :=
  if authorizes S da msg then
    let result := da.registerNode S msg.context msg.vrfData.nym msg.nodeId msg.familyIds.toFinset
    if result.2 then
      { state := result.1
        sent := [(sender, ⟨true, "Authorized: Added to Tor relay consensus directory."⟩)] }
    else
      { state := result.1
        sent := [(sender, ⟨false, "Unauthorized: pseudonym already claimed by another node."⟩)] }
  else
    { state := da
      sent := [(sender, ⟨false, "Unauthorized: credential linkage validation failed."⟩)] }

end Authorities

/-! ## The honest message -/

section Honest

variable {p : ℕ} {G1 G2 GT : Type} [CommGroup G1] [CommGroup G2] [CommGroup GT]
  (S : CryptimeleonSetup p G1 G2 GT)

/-- An honestly built message exists unless the VRF exponent is zero. -/
theorem honestRegistration_eq_some {u : User p} {k : ZMod p} {σ : G1} {context nodeId : Text}
    {ids : List Text} {msg : RegisterRelayMsg p G1 G2 GT}
    (h : honestRegistration S u k σ context nodeId ids = some msg) :
    u.secretX + hashContext S context ≠ 0
      ∧ msg = { userPublicKeyG2 := zpw S.pairing.g2 u.secretX
                vrfData :=
                  { nym := zpw S.pairing.gpairing (pseudonymExponent S u.secretX context)
                    zkp := zpw S.pairing.g1 (pseudonymExponent S u.secretX context) }
                credentialCommitmentG1 := zpw S.pairing.g1 u.secretX
                credential := σ
                dleqProof := generateProof S k u.secretX (zpw S.pairing.g1 u.secretX)
                  (zpw S.pairing.g2 u.secretX) context
                context := context, nodeId := nodeId, familyIds := ids } := by
  unfold honestRegistration User.generateVRFPseudonym at h
  by_cases hne : u.secretX + hashContext S context = 0
  · rw [buildProof_eq_none S hne] at h
    simp at h
  · rw [buildProof_eq S hne, Option.map_some] at h
    exact ⟨hne, (Option.some.inj h).symm⟩

theorem honestRegistration_isSome {u : User p} (k : ZMod p) (σ : G1) {context : Text}
    (nodeId : Text) (ids : List Text) (h : u.secretX + hashContext S context ≠ 0) :
    ∃ msg, honestRegistration S u k σ context nodeId ids = some msg := by
  unfold honestRegistration User.generateVRFPseudonym
  rw [buildProof_eq S h]
  exact ⟨_, rfl⟩

end Honest

/-! ## The checks in the exponent -/

section Checks

variable {p : ℕ} [Fact p.Prime] {G1 G2 GT : Type} [CommGroup G1] [CommGroup G2]
  [CommGroup GT] [ExpGroup p G1] [ExpGroup p G2] [ExpGroup p GT] [DecidableEq GT]
  (S : CryptimeleonSetup p G1 G2 GT)

omit [ExpGroup p G1] in
/-- **What the DA checks**, for a message whose public key is `g2^y` and whose
commitment is `g1^u`, under the master secret `m`: the only VRF result of `y`,
a valid linkage proof, and `g1^{u m}`. -/
theorem authorizes_iff {da : DA G2} {m : ZMod p} (hm : da.mpkG2 = zpw S.pairing.g2 m)
    {msg : RegisterRelayMsg p G1 G2 GT} {y u : ZMod p}
    (hpk : msg.userPublicKeyG2 = zpw S.pairing.g2 y)
    (hcom : msg.credentialCommitmentG1 = zpw S.pairing.g1 u) :
    authorizes S da msg = true ↔
      (y + hashContext S msg.context ≠ 0
        ∧ msg.vrfData.zkp = zpw S.pairing.g1 (pseudonymExponent S y msg.context)
        ∧ msg.vrfData.nym = zpw S.pairing.gpairing (pseudonymExponent S y msg.context))
      ∧ verifyProof S (zpw S.pairing.g1 u) (zpw S.pairing.g2 y) msg.context msg.dleqProof = true
      ∧ msg.credential = zpw S.pairing.g1 (u * m) := by
  unfold authorizes DA.verifyVrf
  rw [Bool.and_eq_true, hpk, hcom, isValid_iff, DA.verifyCredentialLinkage_iff S hm]

/-- The DA accepts an honestly built message exactly when its credential is
`g1^{x m}`: the other two checks always pass. -/
theorem authorizes_honest_iff {da : DA G2} {m : ZMod p} (hm : da.mpkG2 = zpw S.pairing.g2 m)
    {u : User p} {k : ZMod p} {σ : G1} {context nodeId : Text} {ids : List Text}
    {msg : RegisterRelayMsg p G1 G2 GT}
    (h : honestRegistration S u k σ context nodeId ids = some msg) :
    authorizes S da msg = true ↔ σ = zpw S.pairing.g1 (u.secretX * m) := by
  obtain ⟨hne, rfl⟩ := honestRegistration_eq_some S h
  rw [authorizes_iff S hm rfl rfl]
  constructor
  · exact fun h => h.2.2
  · exact fun h => ⟨⟨hne, rfl, rfl⟩, verifyProof_generateProof S k u.secretX context, h⟩

end Checks

end Dittor.Registration

import Dittor.Lib.Wire
import Dittor.Registration.EntryPoints

/-!
# The messages on the wire (`messages/ca`, `messages/da`)

Every message class carries its own serializer: fixed integers, strings as the
length of their UTF-8 bytes and the bytes, lists as their size and the elements,
group elements and exponents as strings of JSON. `ByteBuf` is a byte string that
is written at its end and read from its front; the exceptions of the readers (too
few bytes, a negative array size, an element that cannot be restored) are `none`.

Each serializer has its `Reads` lemma, assembled from those of its fields in the
order they are written; `messages_round_trip` is all of them together, dispatched
by `MSG_ID` as the protocols register them.
-/

namespace Dittor.Registration

open Dittor.Lib Dittor.Crypto Dittor.Dkg

/-! ## Fields -/

/-- `ByteBuf.writeInt` -/
def writeInt (i : ℤ) : List UInt8 := be32 (int32Bits i)

/-- `ByteBuf.readInt` -/
def readInt : Reader ℤ := ofInt32Bits <$> readBe32

/-- `ByteBuf.writeBoolean` -/
def writeBoolean (b : Bool) : List UInt8 := [if b then 1 else 0]

/-- `ByteBuf.readBoolean` -/
def readBoolean : Reader Bool := (fun bytes => bytes.head? ≠ some 0) <$> Reader.take 1

/-- `new byte[len]` and `readBytes` into it -/
def readByteArray (len : ℤ) : Reader (List UInt8) :=
  if len < 0 then Reader.ofOption none else Reader.take len.toNat

/-- `writeString` -/
def writeString (str : Text) : List UInt8 := writeInt (utf8Bytes str).length ++ utf8Bytes str

/-- `readString` -/
def readString : Reader Text := do
  let len ← readInt
  let bytes ← readByteArray len
  return decodeUtf8 bytes

/-- `restoreElement(jsonConverter.deserialize(readString(in)))` -/
def readElement {α : Type} (restoreElement : Text → Option α) : Reader α := do
  let str ← readString
  Reader.ofOption (restoreElement str)

/-- A string whose bytes fit into a Java array. -/
def FitsArray (t : Text) : Prop := (utf8Bytes t).length < 2 ^ 31

theorem reads_int {i : ℤ} (h : IsInt32 i) : Reads readInt (writeInt i) i := by
  have hread := Reads.map (f := ofInt32Bits) (reads_be32 (int32Bits_lt i))
  rw [ofInt32Bits_int32Bits h] at hread
  exact hread

/-- A size or a length, which is never negative. -/
theorem reads_size {n : ℕ} (h : n < 2 ^ 31) : Reads readInt (writeInt n) n :=
  reads_int ⟨by omega, by omega⟩

theorem reads_boolean (b : Bool) : Reads readBoolean (writeBoolean b) b := by
  have hread := Reads.map (f := fun bytes : List UInt8 => decide (bytes.head? ≠ some 0))
    (reads_take (writeBoolean b))
  have hvalue : decide ((writeBoolean b).head? ≠ some 0) = b := by cases b <;> decide
  rw [hvalue] at hread
  exact hread

theorem reads_byteArray (bytes : List UInt8) : Reads (readByteArray bytes.length) bytes bytes := by
  rw [readByteArray, if_neg (by omega), Int.toNat_natCast]
  exact reads_take bytes

/-- A string is read by the number of its bytes, not of its characters. -/
theorem reads_string {t : Text} (h : FitsArray t) : Reads readString (writeString t) t := by
  refine Reads.bind (reads_size h) (Reads.last (reads_byteArray (utf8Bytes t)) ?_)
  rw [show decodeUtf8 (utf8Bytes t) = t from decodeUtf8_encode_self t]
  exact Reads.pure t

theorem reads_element {α : Type} {restoreElement : Text → Option α} {t : Text} {x : α}
    (hfits : FitsArray t) (hrestore : restoreElement t = some x) :
    Reads (readElement restoreElement) (writeString t) x :=
  Reads.last (reads_string hfits) (reads_ofOption hrestore)

/-! ## Messages -/

section Messages

variable {p : ℕ} {G1 G2 GT : Type} (W : Serializer p G1 G2 GT) (R : Restorer p G1 G2 GT)

/-- `DKGCommitmentHashMsg.serialize` -/
def serializeCommitmentHash (senderID : ℤ) (commitmentHash : Text) : List UInt8 :=
  writeInt senderID ++ writeString commitmentHash

/-- `DKGCommitmentHashMsg.deserialize` -/
def deserializeCommitmentHash : Reader (DkgMsg p G1 G2) := do
  let senderID ← readInt
  let hash ← readString
  return .commitmentHash senderID hash

/-- `DKGRevealMsg.serialize` -/
def serializeReveal (senderID : ℤ) (r : Reveal G1 G2) : List UInt8 :=
  writeInt senderID ++ (writeInt r.commitmentsG1.length
    ++ (r.commitmentsG1.flatMap (fun c => writeString (W.serializeG1 c))
    ++ (writeString (W.serializeG1 r.pubKeyG1) ++ writeString (W.serializeG2 r.pubKeyG2))))

/-- `DKGRevealMsg.deserialize`; a negative count reads no commitment. -/
def deserializeReveal : Reader (DkgMsg p G1 G2) := do
  let senderID ← readInt
  let count ← readInt
  let commitments ← (readElement R.restoreG1).times count.toNat
  let pubKeyG1 ← readElement R.restoreG1
  let pubKeyG2 ← readElement R.restoreG2
  return .reveal senderID ⟨commitments, pubKeyG1, pubKeyG2⟩

/-- `DKGShareMsg.serialize` -/
def serializeShare (senderId : ℤ) (secretShare blindingShare : ZMod p) : List UInt8 :=
  writeInt senderId ++ (writeString (W.serializeZn secretShare)
    ++ writeString (W.serializeZn blindingShare))

/-- `DKGShareMsg.deserialize` -/
def deserializeShare : Reader (DkgMsg p G1 G2) := do
  let senderId ← readInt
  let secretShare ← readElement R.restoreZn
  let blindingShare ← readElement R.restoreZn
  return .share senderId secretShare blindingShare

/-- `DKGComplaintMsg.serialize` -/
def serializeComplaint (senderId accusedId : ℤ) (reason : String) : List UInt8 :=
  writeInt senderId ++ (writeInt accusedId ++ writeString reason.toList)

/-- `DKGComplaintMsg.deserialize` -/
def deserializeComplaint : Reader (DkgMsg p G1 G2) := do
  let senderId ← readInt
  let accusedId ← readInt
  let reason ← readString
  return .complaint senderId accusedId (String.ofList reason)

/-- `CredentialRequestMsg.serialize` -/
def serializeCredentialRequest (blindedCommitment : G1) : List UInt8 :=
  writeString (W.serializeG1 blindedCommitment)

/-- `CredentialRequestMsg.deserialize` -/
def deserializeCredentialRequest : Reader G1 := readElement R.restoreG1

/-- `CredentialReplyMsg.serialize` -/
def serializeCredentialReply (msg : CredentialReplyMsg G1) : List UInt8 :=
  writeInt msg.caID ++ writeString (W.serializeG1 msg.signatureShare)

/-- `CredentialReplyMsg.deserialize` -/
def deserializeCredentialReply : Reader (CredentialReplyMsg G1) := do
  let caID ← readInt
  let share ← readElement R.restoreG1
  return ⟨caID, share⟩

/-- `MasterPubKeyReplyMsg.serialize` -/
def serializeMasterPubKeyReply (mpkG1 : G1) (mpkG2 : G2) : List UInt8 :=
  writeString (W.serializeG1 mpkG1) ++ writeString (W.serializeG2 mpkG2)

/-- `MasterPubKeyReplyMsg.deserialize` -/
def deserializeMasterPubKeyReply : Reader (G1 × G2) := do
  let mpkG1 ← readElement R.restoreG1
  let mpkG2 ← readElement R.restoreG2
  return (mpkG1, mpkG2)

/-- `RegisterRelayMsg.serialize` -/
def serializeRegisterRelay (msg : RegisterRelayMsg p G1 G2 GT) : List UInt8 :=
  writeString msg.context
    ++ (writeString (W.serializeG2 msg.userPublicKeyG2)
    ++ (writeString (W.serializeGT msg.vrfData.nym)
    ++ (writeString (W.serializeG1 msg.vrfData.zkp)
    ++ (writeString (W.serializeG1 msg.credentialCommitmentG1)
    ++ (writeString (W.serializeG1 msg.credential)
    ++ (writeString (W.serializeZn msg.dleqProof.challenge)
    ++ (writeString (W.serializeZn msg.dleqProof.response)
    ++ (writeString msg.nodeId
    ++ (writeInt msg.familyIds.length ++ msg.familyIds.flatMap writeString)))))))))

/-- `RegisterRelayMsg.deserialize`: all strings are read before the first element is restored. -/
def deserializeRegisterRelay : Reader (RegisterRelayMsg p G1 G2 GT) := do
  let context ← readString
  let pkStr ← readString
  let nymStr ← readString
  let zkpStr ← readString
  let g1xStr ← readString
  let credentialStr ← readString
  let dleqChallengeStr ← readString
  let dleqResponseStr ← readString
  let nodeId ← readString
  let familyIdsCount ← readInt
  let familyIds ← readString.times familyIdsCount.toNat
  Reader.ofOption do
    let pk ← R.restoreG2 pkStr
    let nym ← R.restoreGT nymStr
    let zkp ← R.restoreG1 zkpStr
    let g1x ← R.restoreG1 g1xStr
    let credential ← R.restoreG1 credentialStr
    let dleqChallenge ← R.restoreZn dleqChallengeStr
    let dleqResponse ← R.restoreZn dleqResponseStr
    return ⟨pk, ⟨nym, zkp⟩, g1x, credential, ⟨dleqChallenge, dleqResponse⟩, context, nodeId,
      familyIds⟩

/-- `RegisterRelayReplyMsg.serialize` -/
def serializeRegisterRelayReply (msg : RegisterRelayReplyMsg) : List UInt8 :=
  writeBoolean msg.success ++ writeString msg.statusMessage.toList

/-- `RegisterRelayReplyMsg.deserialize` -/
def deserializeRegisterRelayReply : Reader RegisterRelayReplyMsg := do
  let success ← readBoolean
  let statusMessage ← readString
  return ⟨success, String.ofList statusMessage⟩

/-- A message of any of the classes. -/
inductive WireMsg (p : ℕ) (G1 G2 GT : Type) where
  | registerRelay (msg : RegisterRelayMsg p G1 G2 GT)
  | registerRelayReply (msg : RegisterRelayReplyMsg)
  /-- `CredentialRequestMsg` -/
  | credentialRequest (blindedCommitment : G1)
  | credentialReply (msg : CredentialReplyMsg G1)
  | dkg (msg : DkgMsg p G1 G2)
  | masterPubKeyRequest
  /-- `MasterPubKeyReplyMsg` -/
  | masterPubKeyReply (mpkG1 : G1) (mpkG2 : G2)

/-- `MSG_ID` -/
def WireMsg.msgId : WireMsg p G1 G2 GT → ℕ
  | .registerRelay _ => 103
  | .registerRelayReply _ => 104
  | .credentialRequest _ => 201
  | .credentialReply _ => 202
  | .dkg (.commitmentHash ..) => 210
  | .dkg (.reveal ..) => 211
  | .dkg (.share ..) => 212
  | .dkg (.complaint ..) => 213
  | .masterPubKeyRequest => 214
  | .masterPubKeyReply .. => 215

/-- `serialize` of the serializer of its class. -/
def WireMsg.serialize : WireMsg p G1 G2 GT → List UInt8
  | .registerRelay msg => serializeRegisterRelay W msg
  | .registerRelayReply msg => serializeRegisterRelayReply msg
  | .credentialRequest blindedCommitment => serializeCredentialRequest W blindedCommitment
  | .credentialReply msg => serializeCredentialReply W msg
  | .dkg (.commitmentHash senderID hash) => serializeCommitmentHash senderID hash
  | .dkg (.reveal senderID content) => serializeReveal W senderID content
  | .dkg (.share senderId secretShare blindingShare) =>
    serializeShare W senderId secretShare blindingShare
  | .dkg (.complaint senderId accusedId reason) => serializeComplaint senderId accusedId reason
  | .masterPubKeyRequest => []
  | .masterPubKeyReply mpkG1 mpkG2 => serializeMasterPubKeyReply W mpkG1 mpkG2

/-- `deserialize` of the serializer registered for a `MSG_ID`. -/
def deserializeMsg : ℕ → Reader (WireMsg p G1 G2 GT)
  | 103 => .registerRelay <$> deserializeRegisterRelay R
  | 104 => .registerRelayReply <$> deserializeRegisterRelayReply
  | 201 => .credentialRequest <$> deserializeCredentialRequest R
  | 202 => .credentialReply <$> deserializeCredentialReply R
  | 210 => .dkg <$> deserializeCommitmentHash
  | 211 => .dkg <$> deserializeReveal R
  | 212 => .dkg <$> deserializeShare R
  | 213 => .dkg <$> deserializeComplaint
  | 214 => pure .masterPubKeyRequest
  | 215 => (fun keys => .masterPubKeyReply keys.1 keys.2) <$> deserializeMasterPubKeyReply R
  | _ => Reader.ofOption none

end Messages

/-! ## Round trips -/

section RoundTrips

variable {p : ℕ} {G1 G2 GT : Type}

/-- Each element alone is restored from its JSON, and that fits into an array. -/
structure RestoresElements (W : Serializer p G1 G2 GT) (R : Restorer p G1 G2 GT) : Prop where
  restoreG1 : ∀ x, R.restoreG1 (W.serializeG1 x) = some x
  restoreG2 : ∀ x, R.restoreG2 (W.serializeG2 x) = some x
  restoreGT : ∀ x, R.restoreGT (W.serializeGT x) = some x
  restoreZn : ∀ x, R.restoreZn (W.serializeZn x) = some x
  fitsG1 : ∀ x, FitsArray (W.serializeG1 x)
  fitsG2 : ∀ x, FitsArray (W.serializeG2 x)
  fitsGT : ∀ x, FitsArray (W.serializeGT x)
  fitsZn : ∀ x, FitsArray (W.serializeZn x)

variable {W : Serializer p G1 G2 GT} {R : Restorer p G1 G2 GT} (hlib : RestoresElements W R)

theorem reads_commitmentHash {senderID : ℤ} {hash : Text} (hid : IsInt32 senderID)
    (hhash : FitsArray hash) :
    Reads (deserializeCommitmentHash : Reader (DkgMsg p G1 G2))
      (serializeCommitmentHash senderID hash) (.commitmentHash senderID hash) :=
  Reads.bind (reads_int hid) (Reads.last (reads_string hhash) (Reads.pure _))

theorem reads_complaint {senderId accusedId : ℤ} {reason : String} (hid : IsInt32 senderId)
    (haccused : IsInt32 accusedId) (hreason : FitsArray reason.toList) :
    Reads (deserializeComplaint : Reader (DkgMsg p G1 G2))
      (serializeComplaint senderId accusedId reason) (.complaint senderId accusedId reason) := by
  refine Reads.bind (reads_int hid) (Reads.bind (reads_int haccused)
    (Reads.last (reads_string hreason) ?_))
  rw [String.ofList_toList]
  exact Reads.pure _

theorem reads_registerRelayReply {msg : RegisterRelayReplyMsg}
    (hmsg : FitsArray msg.statusMessage.toList) :
    Reads deserializeRegisterRelayReply (serializeRegisterRelayReply msg) msg := by
  refine Reads.bind (reads_boolean msg.success) (Reads.last (reads_string hmsg) ?_)
  rw [String.ofList_toList]
  exact Reads.pure msg

include hlib

theorem reads_G1 (x : G1) : Reads (readElement R.restoreG1) (writeString (W.serializeG1 x)) x :=
  reads_element (hlib.fitsG1 x) (hlib.restoreG1 x)

theorem reads_G2 (x : G2) : Reads (readElement R.restoreG2) (writeString (W.serializeG2 x)) x :=
  reads_element (hlib.fitsG2 x) (hlib.restoreG2 x)

theorem reads_Zn (x : ZMod p) :
    Reads (readElement R.restoreZn) (writeString (W.serializeZn x)) x :=
  reads_element (hlib.fitsZn x) (hlib.restoreZn x)

theorem reads_reveal {senderID : ℤ} {r : Reveal G1 G2} (hid : IsInt32 senderID)
    (hcount : r.commitmentsG1.length < 2 ^ 31) :
    Reads (deserializeReveal R) (serializeReveal W senderID r) (.reveal senderID r) := by
  refine Reads.bind (reads_int hid) (Reads.bind (reads_size hcount) ?_)
  rw [Int.toNat_natCast]
  refine Reads.bind (Reads.times fun c _ => reads_G1 hlib c) ?_
  exact Reads.bind (reads_G1 hlib r.pubKeyG1)
    (Reads.last (reads_G2 hlib r.pubKeyG2) (Reads.pure (DkgMsg.reveal senderID r)))

theorem reads_share {senderId : ℤ} (hid : IsInt32 senderId) (secretShare blindingShare : ZMod p) :
    Reads (deserializeShare R : Reader (DkgMsg p G1 G2))
      (serializeShare W senderId secretShare blindingShare)
      (.share senderId secretShare blindingShare) :=
  Reads.bind (reads_int hid) (Reads.bind (reads_Zn hlib secretShare)
    (Reads.last (reads_Zn hlib blindingShare) (Reads.pure _)))

theorem reads_credentialReply {msg : CredentialReplyMsg G1} (hid : IsInt32 msg.caID) :
    Reads (deserializeCredentialReply R) (serializeCredentialReply W msg) msg :=
  Reads.bind (reads_int hid) (Reads.last (reads_G1 hlib msg.signatureShare) (Reads.pure msg))

theorem reads_masterPubKeyReply (mpkG1 : G1) (mpkG2 : G2) :
    Reads (deserializeMasterPubKeyReply R) (serializeMasterPubKeyReply W mpkG1 mpkG2)
      (mpkG1, mpkG2) :=
  Reads.bind (reads_G1 hlib mpkG1) (Reads.last (reads_G2 hlib mpkG2) (Reads.pure _))

/-- The strings of a registration. -/
structure FitsRegistration (msg : RegisterRelayMsg p G1 G2 GT) : Prop where
  context : FitsArray msg.context
  nodeId : FitsArray msg.nodeId
  familyIds : ∀ f ∈ msg.familyIds, FitsArray f
  count : msg.familyIds.length < 2 ^ 31

theorem reads_registerRelay {msg : RegisterRelayMsg p G1 G2 GT} (h : FitsRegistration msg) :
    Reads (deserializeRegisterRelay R) (serializeRegisterRelay W msg) msg := by
  refine Reads.bind (reads_string h.context) ?_
  refine Reads.bind (reads_string (hlib.fitsG2 _)) ?_
  refine Reads.bind (reads_string (hlib.fitsGT _)) ?_
  refine Reads.bind (reads_string (hlib.fitsG1 _)) ?_
  refine Reads.bind (reads_string (hlib.fitsG1 _)) ?_
  refine Reads.bind (reads_string (hlib.fitsG1 _)) ?_
  refine Reads.bind (reads_string (hlib.fitsZn _)) ?_
  refine Reads.bind (reads_string (hlib.fitsZn _)) ?_
  refine Reads.bind (reads_string h.nodeId) (Reads.bind (reads_size h.count) ?_)
  rw [Int.toNat_natCast]
  refine Reads.last (Reads.times fun f hf => reads_string (h.familyIds f hf)) ?_
  -- every element comes back from its own string
  apply reads_ofOption
  simp only [hlib.restoreG1, hlib.restoreG2, hlib.restoreGT, hlib.restoreZn, Option.bind_eq_bind,
    Option.bind_some, Option.pure_def]

/-- What the Java types promise of a message: an id is an `int`, and the sizes of lists and
of the bytes of strings are. -/
def WireMsg.Fits : WireMsg p G1 G2 GT → Prop
  | .registerRelay msg => FitsRegistration msg
  | .registerRelayReply msg => FitsArray msg.statusMessage.toList
  | .credentialRequest _ => True
  | .credentialReply msg => IsInt32 msg.caID
  | .dkg (.commitmentHash senderID hash) => IsInt32 senderID ∧ FitsArray hash
  | .dkg (.reveal senderID content) =>
    IsInt32 senderID ∧ content.commitmentsG1.length < 2 ^ 31
  | .dkg (.share senderId _ _) => IsInt32 senderId
  | .dkg (.complaint senderId accusedId reason) =>
    IsInt32 senderId ∧ IsInt32 accusedId ∧ FitsArray reason.toList
  | .masterPubKeyRequest => True
  | .masterPubKeyReply .. => True

/-- **Every wire message decodes to what was encoded.** The deserializer registered for
its `MSG_ID`, applied to what `serialize` wrote and any further bytes, returns the
message and leaves exactly the further bytes. -/
theorem messages_round_trip (msg : WireMsg p G1 G2 GT) (hfits : msg.Fits) (rest : List UInt8) :
    deserializeMsg R msg.msgId (msg.serialize W ++ rest) = some (msg, rest) := by
  have hreads : Reads (deserializeMsg R msg.msgId) (msg.serialize W) msg := by
    match msg, hfits with
    | .registerRelay _, h => exact (reads_registerRelay hlib h).map
    | .registerRelayReply _, h => exact (reads_registerRelayReply h).map
    | .credentialRequest c, _ => exact (reads_G1 hlib c).map
    | .credentialReply _, h => exact (reads_credentialReply hlib h).map
    | .dkg (.commitmentHash ..), h => exact (reads_commitmentHash h.1 h.2).map
    | .dkg (.reveal ..), h => exact (reads_reveal hlib h.1 h.2).map
    | .dkg (.share _ s t), h => exact (reads_share hlib h s t).map
    | .dkg (.complaint ..), h => exact (reads_complaint h.1 h.2.1 h.2.2).map
    | .masterPubKeyRequest, _ => exact Reads.pure _
    | .masterPubKeyReply mpkG1 mpkG2, _ => exact (reads_masterPubKeyReply hlib mpkG1 mpkG2).map
  exact hreads rest

end RoundTrips

/-- The JSON of the small library is three bytes long. -/
theorem serializeDigit_fits (x : ZMod 5) : FitsArray (serializeDigit 5 x) := by
  have hlen : ∀ x : ZMod 5, (utf8Bytes (serializeDigit 5 x)).length = 3 := by decide
  rw [FitsArray, hlen]
  decide

theorem digits_restore : RestoresElements (digitSerializer 5) (digitRestorer 5) where
  restoreG1 := digits_lawful.restoreG1
  restoreG2 := digits_lawful.restoreG2
  restoreGT := digits_lawful.restoreGT
  restoreZn := digits_lawful.restoreZn
  fitsG1 x := serializeDigit_fits x.toAdd
  fitsG2 x := serializeDigit_fits x.toAdd
  fitsGT x := serializeDigit_fits x.toAdd
  fitsZn x := serializeDigit_fits x

/-- A registration with a node id of characters of two, three and four bytes and two family
ids, followed by the first byte of another message. -/
theorem messages_round_trip_unicode :
    deserializeMsg (digitRestorer 5) 103 ((WireMsg.registerRelay
        (sampleMessage 2 3 torContext 3 "nó€𝔽".toList ["".toList, "família".toList])).serialize
          (digitSerializer 5) ++ [7])
      = some (.registerRelay
        (sampleMessage 2 3 torContext 3 "nó€𝔽".toList ["".toList, "família".toList]), [7]) := by
  refine messages_round_trip digits_restore (.registerRelay _) ⟨?_, ?_, ?_, ?_⟩ [7]
  · show (utf8Bytes torContext).length < 2 ^ 31
    decide
  · show (utf8Bytes "nó€𝔽".toList).length < 2 ^ 31
    decide
  · show ∀ f ∈ ["".toList, "família".toList], (utf8Bytes f).length < 2 ^ 31
    decide
  · show 2 < 2 ^ 31
    decide

end Dittor.Registration

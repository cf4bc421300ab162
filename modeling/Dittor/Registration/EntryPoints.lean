import Dittor.Registration.Registry

/-!
# Both entry points decide alike (`DAProtocol.java`, `DAServer.java`, `Main.java`)

A registration reaches the directory authority as a `RegisterRelayMsg`, or as a
line of text in which `buildBridgePayloadLine` joins the same ten fields with
bars. The group elements are written by the library; what it writes and restores
is a parameter (`Serializer`, with the laws `Lawful`). Behind the decoding both
entry points run the same `register`, so all that can differ is the message:
`parseRequest` has to give back the one that was written (`parseRequest_payload`).

It does so for all fields that survive `trim`. The bridge trims the context, the
node id and the joined family ids, and `trim` removes control characters as well
as blanks, which the message handler keeps.
-/

namespace Dittor.Registration

open Dittor.Lib Dittor.Crypto Dittor.Dkg

/-! ## What the library writes -/

section Library

/-- `jsonConverter.serialize(x.getRepresentation())` of the library, for each structure. -/
structure Serializer (p : ℕ) (G1 G2 GT : Type) where
  serializeG1 : G1 → Text
  serializeG2 : G2 → Text
  serializeGT : GT → Text
  serializeZn : ZMod p → Text

/-- The JSON of an element: an object, an array or a string, on one line. Numbers and
names of the representations are alphanumeric, so a bar never occurs. -/
structure IsJson (t : Text) : Prop where
  opens : t.head? = some '\x7b' ∨ t.head? = some '[' ∨ t.head? = some '"'
  closes : ∀ c ∈ t.getLast?, isBlank c = false
  oneLine : ∀ c ∈ t, isLineEnd c = false
  noBar : '|' ∉ t

variable {p : ℕ} {G1 G2 GT : Type}

/-- An element is restored from what was written for it. -/
structure Lawful (W : Serializer p G1 G2 GT) (R : Restorer p G1 G2 GT) : Prop where
  jsonG1 : ∀ x, IsJson (W.serializeG1 x)
  jsonG2 : ∀ x, IsJson (W.serializeG2 x)
  jsonGT : ∀ x, IsJson (W.serializeGT x)
  jsonZn : ∀ x, IsJson (W.serializeZn x)
  restoreG1 : ∀ x, R.restoreG1 (W.serializeG1 x) = some x
  restoreG2 : ∀ x, R.restoreG2 (W.serializeG2 x) = some x
  restoreGT : ∀ x, R.restoreGT (W.serializeGT x) = some x
  restoreZn : ∀ x, R.restoreZn (W.serializeZn x) = some x

/-- There is nothing to trim and nothing to quote. -/
theorem IsJson.sanitize {t : Text} (h : IsJson t) : sanitizeJsonString t = t := by
  have hhead : ∀ c ∈ t.head?, isBlank c = false := by
    intro c hc
    rcases h.opens with ho | ho | ho
    all_goals
      rw [ho] at hc
      rw [← Option.some.inj hc]
      decide
  unfold sanitizeJsonString
  rw [javaTrim_eq_self hhead h.closes]
  cases t with
  | nil => simpa using h.opens
  | cons c cs =>
    rcases h.opens with ho | ho | ho
    all_goals
      obtain rfl := Option.some.inj ho
      rfl

end Library

/-! ## The bridge line -/

section Line

/-- `buildBridgePayloadLine` -/
def buildBridgePayloadLine (f : RequestFields) : Text :=
  ['|'].intercalate [f.context, f.pk, f.nym, f.zkp, f.g1x, f.credential, f.challenge, f.response,
    f.nodeId, f.familyIds]

/-- The fields that are joined, but the last. -/
def RequestFields.init (f : RequestFields) : List Text :=
  [f.context, f.pk, f.nym, f.zkp, f.g1x, f.credential, f.challenge, f.response, f.nodeId]

theorem buildBridgePayloadLine_eq (f : RequestFields) :
    buildBridgePayloadLine f = ['|'].intercalate (f.init ++ [f.familyIds]) := rfl

/-- Fields without a bar are split apart again. -/
theorem splitFields_payload {f : RequestFields} (hinit : ∀ t ∈ f.init, '|' ∉ t)
    (hbar : '|' ∉ f.familyIds) (hne : f.familyIds ≠ []) :
    splitFields (buildBridgePayloadLine f) = some f := by
  unfold splitFields
  rw [buildBridgePayloadLine_eq, javaSplit_intercalate hbar hne, flatMap_splitOn_of_notMem hinit]
  rfl

variable {p : ℕ} {G1 G2 GT : Type} (W : Serializer p G1 G2 GT)

/-- The fields of a registration as text. -/
def RegisterRelayMsg.fields (msg : RegisterRelayMsg p G1 G2 GT) : RequestFields where
  context := msg.context
  pk := W.serializeG2 msg.userPublicKeyG2
  nym := W.serializeGT msg.vrfData.nym
  zkp := W.serializeG1 msg.vrfData.zkp
  g1x := W.serializeG1 msg.credentialCommitmentG1
  credential := W.serializeG1 msg.credential
  challenge := W.serializeZn msg.dleqProof.challenge
  response := W.serializeZn msg.dleqProof.response
  nodeId := msg.nodeId
  familyIds := familyText msg.familyIds

/-- What a client of the bridge sends: `println("VALIDATE " + payload)`. -/
def bridgeLine (msg : RegisterRelayMsg p G1 G2 GT) : List UInt8 :=
  utf8Bytes ("VALIDATE ".toList ++ buildBridgePayloadLine (msg.fields W) ++ ['\n'])

/-- A context, node id or family id: not empty, and without the delimiters of the line. -/
def IsField (t : Text) : Prop := t ≠ [] ∧ ∀ c ∈ t, c ≠ '|' ∧ c ≠ ',' ∧ c.isWhitespace = false

instance (t : Text) : Decidable (IsField t) :=
  (inferInstance : Decidable (t ≠ [] ∧ ∀ c ∈ t, c ≠ '|' ∧ c ≠ ',' ∧ c.isWhitespace = false))

/-- The registrations the line can carry. -/
structure Carried (msg : RegisterRelayMsg p G1 G2 GT) : Prop where
  context : IsField msg.context
  nodeId : IsField msg.nodeId
  familyIds : ∀ f ∈ msg.familyIds, IsField f
  /-- The dash stands for the empty list. -/
  dash : ['-'] ∉ msg.familyIds

/-- No blank or control character at either end. -/
def PlainEnds (t : Text) : Prop :=
  (∀ c ∈ t.head?, isBlank c = false) ∧ ∀ c ∈ t.getLast?, isBlank c = false

/-- The fields that the bridge trims have plain ends. -/
structure Untrimmed (msg : RegisterRelayMsg p G1 G2 GT) : Prop where
  context : PlainEnds msg.context
  nodeId : PlainEnds msg.nodeId
  familyIds : PlainEnds (familyText msg.familyIds)

end Line

/-! ## The line is read back -/

section ReadBack

variable {p : ℕ} {G1 G2 GT : Type} {W : Serializer p G1 G2 GT} {R : Restorer p G1 G2 GT}
  {msg : RegisterRelayMsg p G1 G2 GT}

theorem PlainEnds.trim {t : Text} (h : PlainEnds t) : javaTrim t = t := javaTrim_eq_self h.1 h.2

theorem IsField.bar {t : Text} (h : IsField t) : '|' ∉ t := fun hmem => (h.2 _ hmem).1 rfl

theorem IsField.comma {t : Text} (h : IsField t) : ',' ∉ t := fun hmem => (h.2 _ hmem).2.1 rfl

theorem IsField.oneLine {t : Text} (h : IsField t) : ∀ c ∈ t, isLineEnd c = false := by
  intro c hc
  have hws := (h.2 c hc).2.2
  unfold Char.isWhitespace at hws
  unfold isLineEnd
  simp only [Bool.or_eq_false_iff] at hws ⊢
  exact ⟨hws.2, hws.1.2⟩

/-- What holds of the delimiters and of every family id holds of the joined text. -/
theorem mem_familyText {familyIds : List Text} {c : Char} (h : c ∈ familyText familyIds) :
    c = '-' ∨ c = ',' ∨ ∃ f ∈ familyIds, c ∈ f := by
  unfold familyText at h
  split at h
  next => exact .inl (List.mem_singleton.mp h)
  next => exact .inr (mem_intercalate h)

/-- The fields of a carried registration: no bar in any of them, and one line. -/
theorem Carried.fields_clean (hlib : Lawful W R) (h : Carried msg) :
    ∀ t ∈ (msg.fields W).init ++ [(msg.fields W).familyIds],
      '|' ∉ t ∧ ∀ c ∈ t, isLineEnd c = false := by
  have hfield : ∀ {t : Text}, IsField t → '|' ∉ t ∧ ∀ c ∈ t, isLineEnd c = false :=
    fun ht => ⟨ht.bar, ht.oneLine⟩
  have hjson : ∀ {t : Text}, IsJson t → '|' ∉ t ∧ ∀ c ∈ t, isLineEnd c = false :=
    fun ht => ⟨ht.noBar, ht.oneLine⟩
  have hids : '|' ∉ familyText msg.familyIds
      ∧ ∀ c ∈ familyText msg.familyIds, isLineEnd c = false := by
    constructor
    · intro hmem
      rcases mem_familyText hmem with hc | hc | ⟨f, hf, hc⟩
      · exact absurd hc (by decide)
      · exact absurd hc (by decide)
      · exact (h.familyIds f hf).bar hc
    · intro c hmem
      rcases mem_familyText hmem with rfl | rfl | ⟨f, hf, hc⟩
      · rfl
      · rfl
      · exact (h.familyIds f hf).oneLine c hc
  -- ten fields: three of the registration, seven of the library
  show ∀ t ∈ [msg.context, W.serializeG2 _, W.serializeGT _, W.serializeG1 _, W.serializeG1 _,
    W.serializeG1 _, W.serializeZn _, W.serializeZn _, msg.nodeId, familyText msg.familyIds], _
  simp only [List.forall_mem_cons]
  exact ⟨hfield h.context, hjson (hlib.jsonG2 _), hjson (hlib.jsonGT _), hjson (hlib.jsonG1 _),
    hjson (hlib.jsonG1 _), hjson (hlib.jsonG1 _), hjson (hlib.jsonZn _), hjson (hlib.jsonZn _),
    hfield h.nodeId, hids, List.forall_mem_nil _⟩

theorem Carried.familyText_ne_nil (h : Carried msg) : familyText msg.familyIds ≠ [] :=
  Registration.familyText_ne_nil fun f hf => (h.familyIds f hf).1

/-- The restored fields are the registration. -/
theorem restoreFields_fields (hlib : Lawful W R) (h : Carried msg) (hends : Untrimmed msg) :
    restoreFields R (msg.fields W) = some msg := by
  have hids : parseFamilyIds (javaTrim (familyText msg.familyIds)) = msg.familyIds := by
    rw [hends.familyIds.trim]
    exact parseFamilyIds_familyText (fun f hf => ⟨(h.familyIds f hf).1, (h.familyIds f hf).comma⟩)
      h.dash
  unfold restoreFields RegisterRelayMsg.fields
  simp only [(hlib.jsonG1 _).sanitize, (hlib.jsonG2 _).sanitize, (hlib.jsonGT _).sanitize,
    (hlib.jsonZn _).sanitize, hlib.restoreG1, hlib.restoreG2, hlib.restoreGT, hlib.restoreZn,
    Option.bind_eq_bind, Option.bind_some, hends.context.trim, hends.nodeId.trim, hids]
  rfl

/-- **Round trip**: the bridge parses the registration that was written. -/
theorem parseRequest_payload (hlib : Lawful W R) (h : Carried msg) (hends : Untrimmed msg) :
    parseRequest R (buildBridgePayloadLine (msg.fields W)) = some msg := by
  have hclean := h.fields_clean hlib
  unfold parseRequest
  rw [splitFields_payload (fun t ht => (hclean t (List.mem_append_left _ ht)).1)
    (hclean _ (List.mem_append_right _ (List.mem_singleton_self _))).1 h.familyText_ne_nil]
  exact restoreFields_fields hlib h hends

/-- The payload begins with the context and ends with the family ids. -/
theorem javaTrim_bridgePayload (h : Carried msg) (hends : Untrimmed msg) :
    javaTrim (buildBridgePayloadLine (msg.fields W)) = buildBridgePayloadLine (msg.fields W) := by
  obtain ⟨post, hpost⟩ := intercalate_cons_eq_append '|' (msg.fields W).context
    ((msg.fields W).init.tail ++ [(msg.fields W).familyIds])
  obtain ⟨pre, hpre⟩ := intercalate_concat_eq_append '|' (msg.fields W).init
    (msg.fields W).familyIds
  apply javaTrim_eq_self
  · intro c hc
    rw [show buildBridgePayloadLine (msg.fields W) = msg.context ++ post from hpost,
      List.head?_append_of_ne_nil _ h.context.1] at hc
    exact hends.context.1 c hc
  · intro c hc
    rw [show buildBridgePayloadLine (msg.fields W) = pre ++ familyText msg.familyIds from hpre,
      List.getLast?_append_of_ne_nil _ h.familyText_ne_nil] at hc
    exact hends.familyIds.2 c hc

theorem oneLine_bridgePayload (hlib : Lawful W R) (h : Carried msg) :
    ∀ c ∈ "VALIDATE ".toList ++ buildBridgePayloadLine (msg.fields W), isLineEnd c = false := by
  have hprefix : ∀ c ∈ "VALIDATE ".toList, isLineEnd c = false := by decide
  intro c hc
  rcases List.mem_append.mp hc with hc | hc
  · exact hprefix c hc
  · rw [buildBridgePayloadLine_eq] at hc
    rcases mem_intercalate hc with rfl | ⟨t, ht, hc⟩
    · rfl
    · exact (h.fields_clean hlib t ht).2 c hc

end ReadBack

/-! ## Agreement -/

section Agreement

variable {p : ℕ} {G1 G2 GT : Type} [CommGroup G1] [CommGroup G2] [CommGroup GT]
  [DecidableEq GT]

/-- The answer of the bridge to what the handler replies. -/
def bridgeAnswer (success : Bool) : Text := if success then "VALID".toList else "INVALID".toList

/-- **Agreement**: one reply, nothing thrown, and on the bridge the same answer and the
same registry. -/
def DecideAlike (W : Serializer p G1 G2 GT) (R : Restorer p G1 G2 GT)
    (S : CryptimeleonSetup p G1 G2 GT) (da : DA G2) (msg : RegisterRelayMsg p G1 G2 GT)
    (sender : Host) : Prop :=
  ∃ reply : RegisterRelayReplyMsg,
    (handleRegisterRelay S da msg sender).sent = [(sender, reply)]
      ∧ (handleRegisterRelay S da msg sender).thrown = none
      ∧ serve R S da (bridgeLine W msg) false
        = ((handleRegisterRelay S da msg sender).state, some (bridgeAnswer reply.success))

variable {W : Serializer p G1 G2 GT} {R : Restorer p G1 G2 GT}

/-- The bridge runs `register` on the registration that was written. -/
theorem serve_bridgeLine (hlib : Lawful W R) (S : CryptimeleonSetup p G1 G2 GT) (da : DA G2)
    {msg : RegisterRelayMsg p G1 G2 GT} (h : Carried msg) (hends : Untrimmed msg) (closed : Bool) :
    serve R S da (bridgeLine W msg) closed
      = ((register S da msg).1, some (bridgeAnswer (register S da msg).2)) := by
  have hread : readLine (bridgeLine W msg) closed
      = .line ("VALIDATE ".toList ++ buildBridgePayloadLine (msg.fields W)) :=
    readLine_encode (oneLine_bridgePayload hlib h) closed
  unfold serve
  rw [hread]
  dsimp only
  rw [handleRequest_validate R S da (javaTrim_bridgePayload h hends)]
  unfold validate
  rw [parseRequest_payload hlib h hends]
  rfl

/-- **Both entry points decide alike**, for every registration the line can carry whose
context, node id and family ids have plain ends. -/
theorem entry_points_agree (hlib : Lawful W R) (S : CryptimeleonSetup p G1 G2 GT) (da : DA G2)
    {msg : RegisterRelayMsg p G1 G2 GT} (h : Carried msg) (hends : Untrimmed msg)
    (sender : Host) : DecideAlike W R S da msg sender := by
  obtain ⟨reply, hsent, hthrown, hreg⟩ := handleRegisterRelay_reply S da msg sender
  refine ⟨reply, hsent, hthrown, ?_⟩
  rw [serve_bridgeLine hlib S da h hends, ← hreg]

end Agreement

/-! ## Two registrations -/

section Samples

/-- The number in a JSON string of one digit. -/
def restoreDigit (p : ℕ) : Text → Option (ZMod p)
  | ['"', c, '"'] => if c.isDigit then some ((c.toNat - '0'.toNat : ℕ) : ZMod p) else none
  | _ => none

/-- The library for the integers mod `p`: an element is its residue. -/
def digitRestorer (p : ℕ) : Restorer p (Multiplicative (ZMod p)) (Multiplicative (ZMod p))
    (Multiplicative (ZMod p)) where
  restoreG1 t := (restoreDigit p t).map .ofAdd
  restoreG2 t := (restoreDigit p t).map .ofAdd
  restoreGT t := (restoreDigit p t).map .ofAdd
  restoreZn := restoreDigit p

/-- A residue as a JSON string. -/
def serializeDigit (p : ℕ) (x : ZMod p) : Text := ['"', Char.ofNat ('0'.toNat + x.val), '"']

def digitSerializer (p : ℕ) : Serializer p (Multiplicative (ZMod p)) (Multiplicative (ZMod p))
    (Multiplicative (ZMod p)) where
  serializeG1 x := serializeDigit p x.toAdd
  serializeG2 x := serializeDigit p x.toAdd
  serializeGT x := serializeDigit p x.toAdd
  serializeZn := serializeDigit p

theorem serializeDigit_json (x : ZMod 5) : IsJson (serializeDigit 5 x) where
  opens := .inr (.inr rfl)
  closes c hc := by
    rw [← Option.some.inj hc]
    rfl
  oneLine := by
    revert x
    decide
  noBar := by
    revert x
    decide

theorem restoreDigit_serializeDigit (x : ZMod 5) :
    restoreDigit 5 (serializeDigit 5 x) = some x := by
  revert x
  decide

theorem digits_lawful : Lawful (digitSerializer 5) (digitRestorer 5) where
  jsonG1 x := serializeDigit_json x.toAdd
  jsonG2 x := serializeDigit_json x.toAdd
  jsonGT x := serializeDigit_json x.toAdd
  jsonZn x := serializeDigit_json x
  restoreG1 x := congrArg (Option.map Multiplicative.ofAdd) (restoreDigit_serializeDigit x.toAdd)
  restoreG2 x := congrArg (Option.map Multiplicative.ofAdd) (restoreDigit_serializeDigit x.toAdd)
  restoreGT x := congrArg (Option.map Multiplicative.ofAdd) (restoreDigit_serializeDigit x.toAdd)
  restoreZn x := restoreDigit_serializeDigit x

/-- A node of the demo's identity, in one family. -/
theorem entry_points_agree_one :
    ∃ msg : RegisterRelayMsg 5 (Multiplicative (ZMod 5)) (Multiplicative (ZMod 5))
        (Multiplicative (ZMod 5)),
      (Carried msg ∧ Untrimmed msg)
        ∧ DecideAlike (digitSerializer 5) (digitRestorer 5) (productSetup 5 2) ⟨.ofAdd 3, ∅⟩ msg
          sampleHost := by
  let msg := sampleMessage 2 3 torContext 3 "000a".toList ["familyXYZ".toList, "f".toList]
  have hcarried : Carried msg := ⟨by decide, by decide, by decide, by decide⟩
  have hends : Untrimmed msg :=
    ⟨⟨by decide, by decide⟩, ⟨by decide, by decide⟩, ⟨by decide, by decide⟩⟩
  exact ⟨msg, ⟨hcarried, hends⟩,
    entry_points_agree digits_lawful (productSetup 5 2) ⟨.ofAdd 3, ∅⟩ hcarried hends sampleHost⟩

/-- A node id that ends in the control character U+0001. -/
def controlId : Text := ['a', Char.ofNat 1]

theorem control_handler :
    storedFamily (handleRegisterRelay (productSetup 5 2) ⟨.ofAdd 3, ∅⟩
      (sampleMessage 2 3 torContext 3 controlId []) sampleHost).state.registrations
      (pseudonymKey (productSetup 5 2).codec torContext (.ofAdd 3)) controlId = some ∅ := by
  decide

theorem control_bridge :
    storedFamily (serve (digitRestorer 5) (productSetup 5 2) ⟨.ofAdd 3, ∅⟩
      (bridgeLine (digitSerializer 5) (sampleMessage 2 3 torContext 3 controlId []))
        false).1.registrations
      (pseudonymKey (productSetup 5 2).codec torContext (.ofAdd 3)) controlId = none := by
  decide

/-- **A trimmed node id.** The handler registers the node as it is named, the bridge
registers another one, without the control character. -/
theorem control_character_trimmed :
    ∃ msg : RegisterRelayMsg 5 (Multiplicative (ZMod 5)) (Multiplicative (ZMod 5))
        (Multiplicative (ZMod 5)),
      Carried msg
        ∧ ¬ DecideAlike (digitSerializer 5) (digitRestorer 5) (productSetup 5 2) ⟨.ofAdd 3, ∅⟩ msg
          sampleHost := by
  refine ⟨sampleMessage 2 3 torContext 3 controlId [], ⟨by decide, by decide, by decide, by decide⟩,
    ?_⟩
  rintro ⟨reply, -, -, hserve⟩
  have hstored := control_bridge
  rw [hserve, control_handler] at hstored
  exact absurd hstored (by simp)

end Samples

end Dittor.Registration

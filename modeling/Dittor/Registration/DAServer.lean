import Dittor.Registration.Protocol
import Dittor.Lib.JavaText

/-!
# The TCP bridge of the directory authority (`DAServer.java`)

A second way into the registry: a client sends one line
`VALIDATE context|pk|nym|zkp|g1x|credential|challenge|response|nodeId|familyIds`
and gets `VALID` or `INVALID` back. The group elements are JSON; restoring them
is the library's work and a parameter of the model (`Restorer`, `none` when it
throws), as in the Babel messages.

`parseRequest` is everything between the line and the checks. Whatever the line
looks like, it ends in a `RegisterRelayMsg` and in the same two checks and the
same `registerNode` as `handleRegisterRelay` does, which is `register`; so one
step of the registry covers both entry points.
-/

namespace Dittor.Registration

open Dittor.Lib Dittor.Crypto Dittor.Dkg

/-- `restoreElement(jsonConverter.deserialize(…))` of the library, for each structure. -/
structure Restorer (p : ℕ) (G1 G2 GT : Type) where
  restoreG1 : Text → Option G1
  restoreG2 : Text → Option G2
  restoreGT : Text → Option GT
  restoreZn : Text → Option (ZMod p)

/-- `sanitizeJsonString` -/
def sanitizeJsonString (str : Text) : Text :=
  match javaTrim str with
  | '{' :: rest => '{' :: rest
  | '[' :: rest => '[' :: rest
  | '"' :: rest => '"' :: rest
  | trimmed => '"' :: trimmed ++ ['"']

/-- `familyIds` from the last field. -/
def parseFamilyIds (familyIdsRaw : Text) : List Text :=
  if familyIdsRaw = ['-'] then [] else javaSplit ',' familyIdsRaw

/-- The last field of a request with these family ids. -/
def familyText (familyIds : List Text) : Text :=
  if familyIds = [] then ['-'] else [','].intercalate familyIds

/-- The fields of a request in its order. -/
structure RequestFields where
  context : Text
  pk : Text
  nym : Text
  zkp : Text
  g1x : Text
  credential : Text
  challenge : Text
  response : Text
  nodeId : Text
  familyIds : Text
deriving DecidableEq

/-- `payload.split("\\|")` and `parts.length == 10`. -/
def splitFields (payload : Text) : Option RequestFields :=
  match javaSplit '|' payload with
  | [f0, f1, f2, f3, f4, f5, f6, f7, f8, f9] => some ⟨f0, f1, f2, f3, f4, f5, f6, f7, f8, f9⟩
  | _ => none

section Fields

theorem familyText_ne_nil {familyIds : List Text} (h : ∀ f ∈ familyIds, f ≠ []) :
    familyText familyIds ≠ [] := by
  unfold familyText
  split
  next => simp
  next hne =>
    obtain ⟨f, fs, hfs⟩ := List.exists_cons_of_ne_nil hne
    obtain ⟨post, hpost⟩ := intercalate_cons_eq_append ',' f fs
    have hf := h f (by rw [hfs]; exact List.mem_cons_self)
    rw [hfs, hpost]
    simp [hf]

/-- What was joined is parsed to the same ids, unless one of them is the dash. -/
theorem parseFamilyIds_familyText {familyIds : List Text}
    (h : ∀ f ∈ familyIds, f ≠ [] ∧ ',' ∉ f) (hdash : ['-'] ∉ familyIds) :
    parseFamilyIds (familyText familyIds) = familyIds := by
  unfold familyText
  split
  next hnil =>
    rw [hnil]
    rfl
  next hne =>
    have hjoin : [','].intercalate familyIds ≠ ['-'] := by
      intro heq
      cases familyIds with
      | nil => exact hne rfl
      | cons f fs =>
        cases fs with
        | nil =>
          rw [List.intercalate_singleton] at heq
          exact hdash (by rw [heq]; exact List.mem_cons_self)
        | cons g gs =>
          -- two ids have a comma between them
          have hcomma : ',' ∈ [','].intercalate (f :: g :: gs) := by
            rw [List.intercalate_cons_cons]
            simp
          rw [heq] at hcomma
          exact absurd hcomma (by decide)
    unfold parseFamilyIds
    rw [if_neg hjoin]
    obtain ⟨init, final, hconcat⟩ := List.eq_nil_or_concat familyIds |>.resolve_left hne
    rw [List.concat_eq_append] at hconcat
    obtain ⟨hfinal, hcomma⟩ := h final (by rw [hconcat]; simp)
    rw [hconcat, javaSplit_intercalate hcomma hfinal, flatMap_splitOn_of_notMem]
    intro f hf
    exact (h f (by rw [hconcat]; exact List.mem_append_left _ hf)).2

end Fields

section Code

variable {p : ℕ} {G1 G2 GT : Type} (R : Restorer p G1 G2 GT)

/-- The registration that the ten parts stand for; `none` when restoring throws. -/
def restoreFields (f : RequestFields) : Option (RegisterRelayMsg p G1 G2 GT) := do
  let pk ← R.restoreG2 (sanitizeJsonString f.pk)
  let nym ← R.restoreGT (sanitizeJsonString f.nym)
  let zkp ← R.restoreG1 (sanitizeJsonString f.zkp)
  let g1x ← R.restoreG1 (sanitizeJsonString f.g1x)
  let credential ← R.restoreG1 (sanitizeJsonString f.credential)
  let challenge ← R.restoreZn (sanitizeJsonString f.challenge)
  let response ← R.restoreZn (sanitizeJsonString f.response)
  return { userPublicKeyG2 := pk, vrfData := ⟨nym, zkp⟩, credentialCommitmentG1 := g1x
           credential := credential, dleqProof := ⟨challenge, response⟩
           context := javaTrim f.context, nodeId := javaTrim f.nodeId
           familyIds := parseFamilyIds (javaTrim f.familyIds) }

/-- The request in a payload; `none` when it is malformed. -/
def parseRequest (payload : Text) : Option (RegisterRelayMsg p G1 G2 GT) :=
  (splitFields payload).bind (restoreFields R)

variable [CommGroup G1] [CommGroup G2] [CommGroup GT] [DecidableEq GT]
  (S : CryptimeleonSetup p G1 G2 GT)

/-- The two checks and `registerNode`, as both entry points call them. -/
def register (da : DA G2) (msg : RegisterRelayMsg p G1 G2 GT) : DA G2 × Bool :=
  if authorizes S da msg then
    da.registerNode S msg.context msg.vrfData.nym msg.nodeId msg.familyIds.toFinset
  else (da, false)

/-- `isValid` at the end of the inner block, with the registry after it. -/
def validate (da : DA G2) (payload : Text) : DA G2 × Bool :=
  match parseRequest R payload with
  | none => (da, false)
  | some msg => register S da msg

/-- A payload is accepted when the request in it passes both checks and is registered. -/
theorem validate_accepts {da : DA G2} {payload : Text} (h : (validate R S da payload).2 = true) :
    ∃ msg, parseRequest R payload = some msg ∧ authorizes S da msg = true
      ∧ da.registerNode S msg.context msg.vrfData.nym msg.nodeId msg.familyIds.toFinset
        = ((validate R S da payload).1, true) := by
  unfold validate at h ⊢
  cases hparse : parseRequest R payload with
  | none =>
    rw [hparse] at h
    exact absurd h (by simp)
  | some msg =>
    rw [hparse] at h
    refine ⟨msg, rfl, ?_⟩
    dsimp only at h ⊢
    unfold register at h ⊢
    split at h
    next hauth =>
      rw [if_pos hauth]
      exact ⟨hauth, Prod.ext rfl h⟩
    next => exact absurd h (by simp)

/-- The prefix of a request. -/
def validatePrefix : Text := "VALIDATE".toList

/-- One request line: the registry after it and the answer. The line `VALIDATE` alone
makes `substring(9)` throw, and the connection is closed without an answer. `substring`
counts UTF-16 units: right behind `VALIDATE`, of a character outside the basic plane it
leaves the second half, which no text here can hold; `drop` takes the whole of it. -/
def handleRequest (da : DA G2) (request : Text) : DA G2 × Option Text :=
  if validatePrefix.isPrefixOf request ∧ 9 ≤ request.length then
    let result := validate R S da (javaTrim (request.drop 9))
    (result.1, some (if result.2 then "VALID".toList else "INVALID".toList))
  else (da, none)

/-- One connection: the bytes the client sent, and whether it closed its side. -/
def serve (da : DA G2) (bytes : List UInt8) (closed : Bool) : DA G2 × Option Text :=
  match readLine bytes closed with
  | .line request => handleRequest R S da request
  | .eof => (da, none)
  | .timeout => (da, none)

/-- A request line with a payload that has nothing to trim. -/
theorem handleRequest_validate (da : DA G2) {payload : Text} (h : javaTrim payload = payload) :
    handleRequest R S da ("VALIDATE ".toList ++ payload)
      = ((validate R S da payload).1,
          some (if (validate R S da payload).2 then "VALID".toList else "INVALID".toList)) := by
  have hline : validatePrefix.isPrefixOf ("VALIDATE ".toList ++ payload)
      ∧ 9 ≤ ("VALIDATE ".toList ++ payload).length := by
    refine ⟨rfl, ?_⟩
    rw [List.length_append, show "VALIDATE ".toList.length = 9 from rfl]
    omega
  have hdrop : ("VALIDATE ".toList ++ payload).drop 9 = payload := rfl
  unfold handleRequest
  rw [if_pos hline, hdrop, h]

end Code

section Register

variable {p : ℕ} {G1 G2 GT : Type} [CommGroup G1] [CommGroup G2] [CommGroup GT]
  [DecidableEq GT] (S : CryptimeleonSetup p G1 G2 GT)

/-- The Babel handler is `register` too: it sends one reply, which reports what was returned. -/
theorem handleRegisterRelay_reply (da : DA G2) (msg : RegisterRelayMsg p G1 G2 GT)
    (sender : Host) :
    ∃ reply : RegisterRelayReplyMsg,
      (handleRegisterRelay S da msg sender).sent = [(sender, reply)]
        ∧ (handleRegisterRelay S da msg sender).thrown = none
        ∧ ((handleRegisterRelay S da msg sender).state, reply.success) = register S da msg := by
  unfold handleRegisterRelay register
  split
  next =>
    dsimp only
    split
    next hok => exact ⟨_, rfl, rfl, Prod.ext rfl hok.symm⟩
    next hno => exact ⟨_, rfl, rfl, Prod.ext rfl (Bool.not_eq_true _ ▸ hno).symm⟩
  next => exact ⟨_, rfl, rfl, rfl⟩

end Register

end Dittor.Registration

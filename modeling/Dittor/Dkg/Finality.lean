import Dittor.Dkg.Entries
import Dittor.Registration.Protocol

/-!
# Finished keys are final

One CA over its whole life: `startDKG`, connections, DKG messages of any
content, and the two requests of a relay operator, in any order. Beside the
state runs a log of the calls into the `CA` object that the argument is about
(`CryptoCall`): `checkShareCalls`, `checkRevealCalls` and `checkHashCalls` list
them with the guards of the three phase checks.

In every run the phase only moves forward, the keys of a finished CA stay, the
polynomials are not evaluated once a `finalizeDKG` that returned has cleared
them, and nothing but a finished CA answers a request. One thing can go wrong:
a `finalizeDKG` that met a `null` leaves the CA in `AWAITING_SHARES`, and the
next share runs it again (`finalizeDKG_runs_twice`). `Counted` excludes the
messages that lead there, and a run of counted steps calls it at most once:
`finished_keys_final`.
-/

namespace Dittor.Dkg

open Dittor.Lib Dittor.Crypto Dittor.Registration

/-- A call of a method of `CA`; `finalizeDKG` with how it ended. -/
inductive CryptoCall where
  | evaluateSecretPolynomial (x : ℤ)
  | evaluateBlindingPolynomial (x : ℤ)
  | finalizeDKG (thrown : Option JavaException)
deriving DecidableEq, Repr

/-- The call reads one of the two polynomials. -/
def CryptoCall.evaluates : CryptoCall → Bool
  | .evaluateSecretPolynomial _ => true
  | .evaluateBlindingPolynomial _ => true
  | .finalizeDKG _ => false

/-- What can happen to a CA. -/
inductive CAInput (p : ℕ) (G1 G2 : Type) where
  | dkg (e : CAEvent p G1 G2)
  /-- `CredentialRequestMsg` -/
  | credentialRequest (blindedCommitment : G1)
  /-- `MasterPubKeyRequestMsg` -/
  | masterPubKeyRequest

/-- What a CA answers to a relay operator. -/
inductive CAReply (G1 G2 : Type) where
  | credential (msg : CredentialReplyMsg G1)
  /-- `MasterPubKeyReplyMsg` -/
  | masterPubKey (masterPubKeyG1 : Option G1) (masterPubKeyG2 : Option G2)

section Calls

variable {p : ℕ} {G1 G2 GT : Type} [CommGroup G1] [CommGroup G2] [CommGroup GT]

namespace CAState

/-- The calls of `checkSharePhaseComplete`. -/
def checkShareCalls (s : CAState p G1 G2) : List CryptoCall :=
  if s.state ≠ .awaitingShares then []
  else if s.accountedShares.card < s.n then []
  else if s.qualifiedIds.length < s.threshold then []
  else [.finalizeDKG s.finalize.2]

/-- The calls of `checkRevealPhaseComplete`: its own share, the two values for
every peer in good standing, and those of the check it ends in. -/
def checkRevealCalls (s : CAState p G1 G2) : List CryptoCall :=
  if s.state ≠ .awaitingReveals then []
  else if s.accountedReveals.card < s.n then []
  else
    let s := { s with state := .awaitingShares }
    match s.hostToPeerId, s.cryptoCA.coefficients with
    | some peers, some c =>
      .evaluateSecretPolynomial s.caID ::
        ((peers.filter fun e => e.2 ∉ s.disqualifiedIds).flatMap fun e =>
          [.evaluateSecretPolynomial e.2, .evaluateBlindingPolynomial e.2])
        ++ (s.putShare s.caID (evaluatePolynomial c.secretCoefficients s.caID)).checkShareCalls
    -- the first evaluation throws on `null` coefficients, the loop on a `null` map
    | _, _ => [.evaluateSecretPolynomial s.caID]

/-- The calls of `checkHashPhaseComplete`. -/
def checkHashCalls (s : CAState p G1 G2) : List CryptoCall :=
  if s.state ≠ .awaitingHashes then []
  else match s.hostToPeerId with
  | none => []
  | some peers =>
    if s.receivedHashes.keys.length < s.n then []
    else if s.connectedPeerIds.card < peers.length then []
    else
      let s := { s with state := .awaitingReveals }
      match s.cryptoCA.published with
      | none => []
      | some r => (s.putReveal s.caID r).checkRevealCalls

/-- The calls of a complaint followed by a check. -/
def complaintCalls (s : CAState p G1 G2) (check : CAState p G1 G2 → List CryptoCall) :
    List CryptoCall :=
  if s.hostToPeerId.isNone then [] else check s

variable [DecidableEq G1] (S : CryptimeleonSetup p G1 G2 GT) (cfg : Config p)

/-- The calls of the handler of a DKG event. -/
def reactCalls (s : CAState p G1 G2) : CAEvent p G1 G2 → List CryptoCall
  | .startDKG =>
    match computeCommitments S (cfg.coeffs s.caID) with
    | none => []
    | some r =>
      (launch S s (cfg.peers s.caID) cfg.threshold cfg.n (cfg.coeffs s.caID) r).checkHashCalls
  | .outConnectionUp target =>
    match s.peerIdOf target, s.myCommitmentHash, s.cryptoCA.published with
    | some peerId, some _, some _ =>
      if s.state ≠ .awaitingHashes then [] else (s.connect peerId).checkHashCalls
    | _, _, _ => []
  | .receive (.commitmentHash k h) =>
    if s.state = .awaitingHashes then (s.putHash k h).checkHashCalls else []
  | .receive (.reveal k r) =>
    if s.receivedHashes.lookup k ≠ some (hashCommitments S r) then
      (s.disqualify k).complaintCalls checkRevealCalls
    else if s.state = .awaitingReveals then (s.putReveal k r).checkRevealCalls else []
  | .receive (.share k a b) =>
    if k ∈ s.disqualifiedIds then []
    else match s.receivedCommitments.lookup k with
    | none => []
    | some C =>
      match verifyShare S a b C s.caID with
      | none => []
      | some false => (s.disqualify k).complaintCalls checkShareCalls
      | some true =>
        if s.state = .awaitingShares then (s.putShare k a).checkShareCalls else []
  | .receive (.complaint _ a _) =>
    match s.state with
    | .awaitingReveals => (s.disqualify a).checkRevealCalls
    | .awaitingShares => (s.disqualify a).checkShareCalls
    | _ => []

end CAState

/-- `handleMasterPubKeyRequest` -/
def handleMasterPubKeyRequest (s : CAState p G1 G2) :
    Outcome (CAState p G1 G2) (CAReply G1 G2) JavaException :=
  if s.state ≠ .done then { state := s }
  else { state := s, sent := [.masterPubKey s.cryptoCA.masterPubKeyG1 s.cryptoCA.masterPubKeyG2] }

/-- What the handler of an input sends to a relay operator; the DKG handlers
send `DkgMsg`s only. -/
def CAState.answers (s : CAState p G1 G2) : CAInput p G1 G2 → List (CAReply G1 G2)
  | .dkg _ => []
  | .credentialRequest c => (handleCredentialRequest s c).sent.map .credential
  | .masterPubKeyRequest => (handleMasterPubKeyRequest s).sent

/-- A CA and the calls it has made so far. -/
structure LoggedCA (p : ℕ) (G1 G2 : Type) where
  ca : CAState p G1 G2
  calls : List CryptoCall := []

variable [DecidableEq G1] (S : CryptimeleonSetup p G1 G2 GT) (cfg : Config p)

/-- One input of one CA. -/
def LoggedCA.next (s : LoggedCA p G1 G2) : CAInput p G1 G2 → Option (LoggedCA p G1 G2)
  | .dkg e =>
    if s.ca.Enabled e then
      some { ca := (s.ca.react S cfg e).state, calls := s.calls ++ s.ca.reactCalls S cfg e }
    else none
  | .credentialRequest c => some { s with ca := (handleCredentialRequest s.ca c).state }
  | .masterPubKeyRequest => some { s with ca := (handleMasterPubKeyRequest s.ca).state }

/-- The input counts towards no id outside `1..n`: none is revealed or accused
before the end, and the threshold `startDKG` gets is positive. -/
def Counted (s : LoggedCA p G1 G2) : CAInput p G1 G2 → Prop
  | .dkg .startDKG => 0 < cfg.threshold
  | .dkg (.receive (.reveal k _)) => s.ca.state ≠ .done → k ∈ cfg.ids
  | .dkg (.receive (.complaint _ accused _)) => s.ca.state ≠ .done → accused ∈ cfg.ids
  | _ => True

instance (s : LoggedCA p G1 G2) (i : CAInput p G1 G2) : Decidable (Counted cfg s i) :=
  match i with
  | .dkg .startDKG => (inferInstance : Decidable (_ < _))
  | .dkg (.outConnectionUp _) => isTrue trivial
  | .dkg (.receive (.commitmentHash _ _)) => isTrue trivial
  | .dkg (.receive (.reveal _ _)) => (inferInstance : Decidable (_ → _))
  | .dkg (.receive (.share _ _ _)) => isTrue trivial
  | .dkg (.receive (.complaint _ _ _)) => (inferInstance : Decidable (_ → _))
  | .credentialRequest _ => isTrue trivial
  | .masterPubKeyRequest => isTrue trivial

/-- `finalizeDKG` was called, whatever came of it. -/
def CryptoCall.finalizes : CryptoCall → Bool
  | .finalizeDKG _ => true
  | _ => false

end Calls

/-! ## What the checks call -/

section Checks

variable {p : ℕ} {G1 G2 GT : Type} [CommGroup G1] [CommGroup G2] [CommGroup GT]

/-- The order in which a CA may call: nothing reads the polynomials after a
`finalizeDKG` that returned. -/
def Cleared (x y : CryptoCall) : Prop :=
  x = .finalizeDKG none → y.evaluates = false

/-- A check called in state `t` makes these calls and comes to `out`. -/
structure Logs (t : CAState p G1 G2) (calls : List CryptoCall) (out : Result p G1 G2) : Prop where
  ordered : calls.Pairwise Cleared
  done_iff : t.state ≠ .done → (.finalizeDKG none ∈ calls ↔ out.state.state = .done)
  quiet : t.state = .done → calls = []
  once : calls.countP CryptoCall.finalizes ≤ 1
  fails : ∀ e, .finalizeDKG (some e) ∈ calls → out.thrown = some e

omit [CommGroup G1] [CommGroup G2] in
theorem Logs.nothing (t : CAState p G1 G2) : Logs t [] { state := t } :=
  ⟨.nil, fun h => ⟨fun hm => absurd hm (by simp), fun h' => absurd h' h⟩, fun _ => rfl, by simp,
    fun _ hm => absurd hm (by simp)⟩

theorem checkShare_logs (t : CAState p G1 G2) :
    Logs t t.checkShareCalls t.checkSharePhaseComplete := by
  unfold CAState.checkShareCalls CAState.checkSharePhaseComplete
  split
  · exact .nothing t
  next hst =>
    have hst' : t.state = .awaitingShares := not_not.mp hst
    split
    · exact .nothing t
    · split
      · exact .nothing t
      · refine ⟨List.pairwise_singleton _ _, fun _ => ?_, fun h => ?_,
          by simp [CryptoCall.finalizes], fun e he => ?_⟩
        · split
          next ca e hf => simp [hf, hst']
          next ca hf => simp [hf]
        · exact absurd (hst'.symm.trans h) (by simp)
        · have hsnd : some e = t.finalize.2 := by simpa using he
          split
          next ca e' hf => rw [hsnd, hf]
          next ca hf => rw [hf] at hsnd; exact absurd hsnd (by simp)

omit [CommGroup G1] [CommGroup G2] in
/-- Evaluations and messages in front of a check. -/
theorem Logs.evaluations {t w : CAState p G1 G2} {out : Result p G1 G2}
    {calls evals : List CryptoCall} (h : Logs t calls out)
    (hev : ∀ x ∈ evals, x.evaluates = true) (ht : t.state ≠ .done) (hw : w.state ≠ .done)
    (l : List (Host × DkgMsg p G1 G2)) : Logs w (evals ++ calls) { out with sent := l } := by
  have hfin : ∀ x ∈ evals, x.finalizes = false := by
    intro x hx
    have he := hev x hx
    cases x with
    | evaluateSecretPolynomial _ => rfl
    | evaluateBlindingPolynomial _ => rfl
    | finalizeDKG _ => exact absurd he (by simp [CryptoCall.evaluates])
  have hno : ∀ r, .finalizeDKG r ∉ evals := by
    intro r hx
    exact absurd (hfin _ hx) (by simp [CryptoCall.finalizes])
  have hold : ∀ r, .finalizeDKG r ∈ evals ++ calls ↔ .finalizeDKG r ∈ calls := by
    intro r
    rw [List.mem_append]
    exact ⟨fun hm => hm.resolve_left (hno r), Or.inr⟩
  refine ⟨?_, fun _ => ?_, fun hd => absurd hd hw, ?_, fun e he => h.fails e ((hold _).mp he)⟩
  · have hfirst : ∀ x ∈ evals, ∀ y, Cleared x y := fun x hx y he => absurd (he ▸ hx) (hno none)
    exact List.pairwise_append.mpr ⟨List.pairwise_of_forall_mem_list fun x hx y _ => hfirst x hx y,
      h.ordered, fun x hx y _ => hfirst x hx y⟩
  · rw [hold]
    exact h.done_iff ht
  · have hzero : evals.countP CryptoCall.finalizes = 0 := by
      rw [List.countP_eq_zero]
      intro x hx
      rw [hfin x hx]
      simp
    have honce := h.once
    rw [List.countP_append]
    omega

theorem checkReveal_logs (t : CAState p G1 G2) :
    Logs t t.checkRevealCalls t.checkRevealPhaseComplete := by
  unfold CAState.checkRevealCalls CAState.checkRevealPhaseComplete
  split
  · exact .nothing t
  next hst =>
    have hst' : t.state = .awaitingReveals := not_not.mp hst
    have hlive : t.state ≠ .done := by rw [hst']; simp
    split
    · exact .nothing t
    · have hnull : ∀ q, Logs t [.evaluateSecretPolynomial t.caID]
          { state := { t with state := .awaitingShares, hostToPeerId := q },
            thrown := some .nullPointer } := fun _ =>
        ⟨List.pairwise_singleton _ _, fun _ => by simp, fun h => absurd h hlive,
          by simp [CryptoCall.finalizes], by simp⟩
      dsimp only
      cases hp : t.hostToPeerId with
      | none => exact hnull none
      | some peers =>
        cases hc : t.cryptoCA.coefficients with
        | none => exact hnull (some peers)
        | some c =>
          dsimp only
          rw [Outcome.andThen_ok]
          refine Logs.evaluations (checkShare_logs _) ?_ (by simp [CAState.putShare]) hlive _
          intro x hx
          rcases List.mem_cons.mp hx with he | hx
          · rw [he]
            rfl
          · obtain ⟨e, -, hx⟩ := List.mem_flatMap.mp hx
            rcases List.mem_cons.mp hx with he | hx
            · rw [he]
              rfl
            · rw [List.mem_singleton.mp hx]
              rfl

theorem checkHash_logs (t : CAState p G1 G2) :
    Logs t t.checkHashCalls t.checkHashPhaseComplete := by
  unfold CAState.checkHashCalls CAState.checkHashPhaseComplete
  split
  · exact .nothing t
  next hst =>
    have hst' : t.state = .awaitingHashes := not_not.mp hst
    have hlive : t.state ≠ .done := by rw [hst']; simp
    cases hp : t.hostToPeerId with
    | none => exact .nothing t
    | some peers =>
      dsimp only
      split
      · exact .nothing t
      · split
        · exact .nothing t
        · cases hr : t.cryptoCA.published with
          | none => exact ⟨.nil, fun _ => by simp, fun _ => rfl, by simp, by simp⟩
          | some r =>
            dsimp only
            rw [Outcome.andThen_ok]
            have h := checkReveal_logs
              (CAState.putReveal { t with state := .awaitingReveals } t.caID r)
            rw [hp] at h
            exact ⟨h.ordered, fun _ => h.done_iff (by simp [CAState.putReveal]),
              fun hd => absurd hd hlive, h.once, h.fails⟩

/-- The check a handler ends in, with its calls and the state it leaves. -/
inductive Ends (t : CAState p G1 G2) : List CryptoCall → CAState p G1 G2 → Prop
  | nothing : Ends t [] t
  | hash : Ends t t.checkHashCalls t.checkHashPhaseComplete.state
  | reveal : Ends t t.checkRevealCalls t.checkRevealPhaseComplete.state
  | share : Ends t t.checkShareCalls t.checkSharePhaseComplete.state

/-- A complaint first: a `null` peer map ends the handler. -/
theorem Ends.complaint {t : CAState p G1 G2} {check : CAState p G1 G2 → Result p G1 G2}
    {calls : CAState p G1 G2 → List CryptoCall} (h : Ends t (calls t) (check t).state)
    (k : ℤ) (reason : String) :
    Ends t (t.complaintCalls calls) ((t.broadcastComplaint k reason).andThen check).state := by
  unfold CAState.complaintCalls CAState.broadcastComplaint
  cases hp : t.hostToPeerId with
  | none => exact .nothing
  | some peers => exact h

theorem Ends.advances {t u : CAState p G1 G2} {calls : List CryptoCall} (h : Ends t calls u) :
    ∃ l, Advances t l u := by
  cases h with
  | nothing => exact ⟨_, .refl t⟩
  | hash => exact ⟨_, t.checkHash_spec⟩
  | reveal => exact ⟨_, t.checkReveal_spec⟩
  | share => exact ⟨_, t.checkShare_spec⟩

theorem Ends.logs {t u : CAState p G1 G2} {calls : List CryptoCall} (h : Ends t calls u) :
    ∃ out, Logs t calls out ∧ out.state = u := by
  cases h with
  | nothing => exact ⟨_, .nothing t, rfl⟩
  | hash => exact ⟨_, checkHash_logs t, rfl⟩
  | reveal => exact ⟨_, checkReveal_logs t, rfl⟩
  | share => exact ⟨_, checkShare_logs t, rfl⟩

/-- In a sound state no check meets a `null`. -/
theorem Ends.sound {cfg : Config p} {t u : CAState p G1 G2} {calls : List CryptoCall}
    (h : Ends t calls u) (hs : Sound cfg t) :
    Sound cfg u ∧ ∀ e, .finalizeDKG (some e) ∉ calls := by
  have hcheck : ∀ {out : Result p G1 G2} {calls}, Safe cfg t out → Logs t calls out →
      Sound cfg out.state ∧ ∀ e, .finalizeDKG (some e) ∉ calls := by
    intro out calls hsafe hlog
    refine ⟨hsafe.sound, fun e he => ?_⟩
    exact absurd ((hlog.fails e he).symm.trans hsafe.thrown) (by simp)
  cases h with
  | nothing => exact ⟨hs, by simp⟩
  | hash => exact hcheck hs.checkHash (checkHash_logs t)
  | reveal => exact hcheck hs.checkReveal (checkReveal_logs t)
  | share => exact hcheck hs.checkShare (checkShare_logs t)

end Checks

/-! ## What the handlers call -/

section Handlers

variable {p : ℕ} {G1 G2 GT : Type} [CommGroup G1] [CommGroup G2] [CommGroup GT]
  [DecidableEq G1] {S : CryptimeleonSetup p G1 G2 GT} {cfg : Config p}

/-- What a handler does before the check it ends in. -/
structure Prepares (cfg : Config p) (s : CAState p G1 G2) (e : CAEvent p G1 G2)
    (t : CAState p G1 G2) : Prop where
  state : t.state = s.state
  started : s.hostToPeerId.isSome = true →
    t.hostToPeerId.isSome = true ∧ t.cryptoCA = s.cryptoCA
  sound : ∀ l, Counted cfg ⟨s, l⟩ (.dkg e) → Sound cfg s → Sound cfg t

omit [CommGroup G1] [CommGroup G2] [DecidableEq G1] in
theorem Prepares.refl (s : CAState p G1 G2) (e : CAEvent p G1 G2) : Prepares cfg s e s :=
  ⟨rfl, fun h => ⟨h, rfl⟩, fun _ _ hs => hs⟩

theorem startDKG_ends (s : CAState p G1 G2) (hen : s.Enabled .startDKG) :
    ∃ t, Prepares cfg s .startDKG t
      ∧ Ends t (s.reactCalls S cfg .startDKG) (s.react S cfg .startDKG).state := by
  have hnone : ¬ s.hostToPeerId.isSome = true := by
    rw [Option.isNone_iff_eq_none.mp hen]
    simp
  cases hr : computeCommitments S (cfg.coeffs s.caID) with
  | none =>
    -- only a threshold of zero leaves nothing to commit to
    have hout : (s.react S cfg .startDKG).state
        = { s with hostToPeerId := some (cfg.peers s.caID), threshold := cfg.threshold, n := cfg.n
                   cryptoCA := { s.cryptoCA with coefficients := some (cfg.coeffs s.caID) } } := by
      show (s.startDKG S (cfg.peers s.caID) cfg.threshold cfg.n (cfg.secret s.caID)
        (cfg.blinding s.caID)).state = _
      unfold CAState.startDKG
      dsimp only
      rw [show generatePrivatePolynomial cfg.threshold (cfg.secret s.caID) (cfg.blinding s.caID)
        = cfg.coeffs s.caID from rfl, hr]
    refine ⟨(s.react S cfg .startDKG).state, ⟨?_, fun h => absurd h hnone, fun _ hpos => ?_⟩, ?_⟩
    · rw [hout]
    · rw [cfg.computeCommitments_coeffs S hpos s.caID] at hr
      exact absurd hr (by simp)
    · simp only [CAState.reactCalls, hr]
      exact .nothing
  | some r =>
    refine ⟨launch S s (cfg.peers s.caID) cfg.threshold cfg.n (cfg.coeffs s.caID) r,
      ⟨rfl, fun h => absurd h hnone, fun _ hpos hs => hs.launch hen hpos r⟩, ?_⟩
    rw [react_startDKG hr]
    simp only [CAState.reactCalls, hr]
    exact .hash

theorem outConnectionUp_ends (s : CAState p G1 G2) (target : Host) :
    ∃ t, Prepares cfg s (.outConnectionUp target) t
      ∧ Ends t (s.reactCalls S cfg (.outConnectionUp target))
        (s.react S cfg (.outConnectionUp target)).state := by
  simp only [CAState.reactCalls, CAState.react, CAState.onOutConnectionUp, CAState.peerIdOf]
  cases s.hostToPeerId.bind fun peers => peers.lookup target with
  | none => exact ⟨s, .refl s _, .nothing⟩
  | some k =>
    cases s.myCommitmentHash with
    | none => exact ⟨s, .refl s _, .nothing⟩
    | some h =>
      cases s.cryptoCA.published with
      | none => exact ⟨s, .refl s _, .nothing⟩
      | some r =>
        have hprep : Prepares cfg s (.outConnectionUp target) (s.connect k) :=
          ⟨rfl, fun h => ⟨h, rfl⟩, fun _ _ hs => hs.connect k⟩
        dsimp only
        split
        · exact ⟨_, hprep, .nothing⟩
        · exact ⟨_, hprep, .hash⟩

theorem receive_ends (s : CAState p G1 G2) (m : DkgMsg p G1 G2) :
    ∃ t, Prepares cfg s (.receive m) t
      ∧ Ends t (s.reactCalls S cfg (.receive m)) (s.react S cfg (.receive m)).state := by
  cases m with
  | commitmentHash k h =>
    refine ⟨s.putHash k h, ⟨rfl, fun h => ⟨h, rfl⟩, fun _ _ hs => hs.putHash k h⟩, ?_⟩
    simp only [CAState.reactCalls, CAState.react, CAState.handle, CAState.handleCommitmentHash]
    by_cases hst : s.state = .awaitingHashes
    · rw [if_pos hst, if_pos (by exact hst)]
      exact .hash
    · rw [if_neg hst, if_neg (by exact hst)]
      exact .nothing
  | reveal k r =>
    have hrej : Prepares cfg s (.receive (.reveal k r)) (s.disqualify k) :=
      ⟨rfl, fun h => ⟨h, rfl⟩, fun _ hok hs => hs.disqualify hok⟩
    simp only [CAState.reactCalls, CAState.react, CAState.handle, CAState.handleReveal]
    cases hlook : s.receivedHashes.lookup k with
    | none =>
      rw [if_pos (by simp)]
      exact ⟨_, hrej, Ends.complaint .reveal k _⟩
    | some h =>
      dsimp only
      by_cases heq : hashCommitments S r = h
      · rw [if_neg (by rw [heq]; simp), if_neg (not_not.mpr heq)]
        refine ⟨s.putReveal k r, ⟨rfl, fun h => ⟨h, rfl⟩, fun _ hok hs => hs.putReveal hok r⟩, ?_⟩
        by_cases hst : s.state = .awaitingReveals
        · rw [if_pos hst, if_pos (by exact hst)]
          exact .reveal
        · rw [if_neg hst, if_neg (by exact hst)]
          exact .nothing
      · rw [if_pos (fun he => heq (Option.some.inj he).symm), if_pos heq]
        exact ⟨_, hrej, Ends.complaint .reveal k _⟩
  | share k a b =>
    simp only [CAState.reactCalls, CAState.react, CAState.handle, CAState.handleShare]
    by_cases hq : k ∈ s.disqualifiedIds
    · rw [if_pos hq, if_pos hq]
      exact ⟨s, .refl s _, .nothing⟩
    · rw [if_neg hq, if_neg hq]
      cases hC : s.receivedCommitments.lookup k with
      | none => exact ⟨s, .refl s _, .nothing⟩
      | some C =>
        -- the sender has revealed, so its id was counted then
        have hid : Sound cfg s → s.state ≠ .done → k ∈ cfg.ids := fun hs hst =>
          hs.ids hst k (Or.inl (AList.lookup_isSome.mp (by rw [hC]; rfl)))
        dsimp only
        cases verifyShare S a b C s.caID with
        | none => exact ⟨s, .refl s _, .nothing⟩
        | some valid =>
          cases valid with
          | false =>
            exact ⟨s.disqualify k, ⟨rfl, fun h => ⟨h, rfl⟩, fun _ _ hs => hs.disqualify (hid hs)⟩,
              Ends.complaint .share k _⟩
          | true =>
            refine ⟨s.putShare k a,
              ⟨rfl, fun h => ⟨h, rfl⟩, fun _ _ hs => hs.putShare (hid hs) a⟩, ?_⟩
            dsimp only
            by_cases hst : s.state = .awaitingShares
            · rw [if_pos hst, if_pos (by exact hst)]
              exact .share
            · rw [if_neg hst, if_neg (by exact hst)]
              exact .nothing
  | complaint k a reason =>
    refine ⟨s.disqualify a, ⟨rfl, fun h => ⟨h, rfl⟩, fun _ hok hs => hs.disqualify hok⟩, ?_⟩
    simp only [CAState.reactCalls, CAState.react, CAState.handle, CAState.handleComplaint]
    have hst : (s.disqualify a).state = s.state := rfl
    rw [hst]
    cases s.state with
    | awaitingHashes => exact .nothing
    | awaitingReveals => exact .reveal
    | awaitingShares => exact .share
    | done => exact .nothing

variable (S cfg) in
/-- **A handler prepares and ends in a check**, whose calls are its calls. -/
theorem react_ends (s : CAState p G1 G2) (e : CAEvent p G1 G2) (hen : s.Enabled e) :
    ∃ t, Prepares cfg s e t ∧ Ends t (s.reactCalls S cfg e) (s.react S cfg e).state := by
  cases e with
  | startDKG => exact startDKG_ends s hen
  | outConnectionUp target => exact outConnectionUp_ends s target
  | receive m => exact receive_ends s m

end Handlers

/-! ## Runs -/

section Runs

variable {p : ℕ} {G1 G2 GT : Type} [CommGroup G1] [CommGroup G2] [CommGroup GT]

/-- Beyond the hashes the peers are known. -/
def Started (s : CAState p G1 G2) : Prop :=
  s.state ≠ .awaitingHashes → s.hostToPeerId.isSome = true

theorem Advances.started {s t : CAState p G1 G2} {l : List (Host × DkgMsg p G1 G2)}
    (hA : Advances s l t) (h : Started s) : Started t := by
  induction hA with
  | refl => exact h
  | head hA _ ih =>
    refine ih fun _ => ?_
    cases hA with
    | toReveals _ hpeers => exact Option.isSome_iff_exists.mpr ⟨_, hpeers⟩
    | toRevealsNull _ hpeers => exact Option.isSome_iff_exists.mpr ⟨_, hpeers⟩
    | toShares hst => exact h (by rw [hst]; simp)
    | toSharesNull hst => exact h (by rw [hst]; simp)
    | finalize hst => exact h (by rw [hst]; simp)
    | finalizeThrows hst => exact h (by rw [hst]; simp)

/-- The three keys `finalizeDKG` sets. -/
def CAState.keys (s : CAState p G1 G2) : Option (ZMod p) × Option G1 × Option G2 :=
  (s.cryptoCA.secretKeyShare, s.cryptoCA.masterPubKeyG1, s.cryptoCA.masterPubKeyG2)

/-- The invariant of every run. -/
structure Final (s : LoggedCA p G1 G2) : Prop where
  started : Started s.ca
  ordered : s.calls.Pairwise Cleared
  finalized : .finalizeDKG none ∈ s.calls → s.ca.state = .done

/-- One step moves forward, keeps the keys of a finished CA and makes no call then. -/
structure Forward (s t : LoggedCA p G1 G2) : Prop where
  rank : s.ca.state.rank ≤ t.ca.state.rank
  keys : s.ca.state = .done → t.ca.keys = s.ca.keys ∧ t.calls = s.calls

omit [CommGroup G1] [CommGroup G2] in
theorem rank_done {q : DkgState} (h : DkgState.done.rank ≤ q.rank) : q = .done := by
  cases q <;> simp_all [DkgState.rank]

omit [CommGroup G1] [CommGroup G2] in
theorem Forward.refl (s : LoggedCA p G1 G2) : Forward s s := ⟨le_refl _, fun _ => ⟨rfl, rfl⟩⟩

omit [CommGroup G1] [CommGroup G2] in
theorem Forward.trans {s t u : LoggedCA p G1 G2} (h₁ : Forward s t) (h₂ : Forward t u) :
    Forward s u := by
  refine ⟨le_trans h₁.rank h₂.rank, fun hd => ?_⟩
  have ht : t.ca.state = .done := rank_done (hd ▸ h₁.rank)
  obtain ⟨hk₁, hc₁⟩ := h₁.keys hd
  obtain ⟨hk₂, hc₂⟩ := h₂.keys ht
  exact ⟨hk₂.trans hk₁, hc₂.trans hc₁⟩

omit [CommGroup G2] in
theorem handleCredentialRequest_state (s : CAState p G1 G2) (c : G1) :
    (handleCredentialRequest s c).state = s := by
  unfold handleCredentialRequest
  split
  · rfl
  · split
    · rfl
    · rfl

omit [CommGroup G1] [CommGroup G2] in
theorem handleMasterPubKeyRequest_state (s : CAState p G1 G2) :
    (handleMasterPubKeyRequest s).state = s := by
  unfold handleMasterPubKeyRequest
  split
  · rfl
  · rfl

variable [DecidableEq G1] {S : CryptimeleonSetup p G1 G2 GT} {cfg : Config p}
  {s t : LoggedCA p G1 G2} {i : CAInput p G1 G2}

/-- What an accepted input does: nothing, or a handler's preparation and check. -/
theorem next_cases (h : s.next S cfg i = some t) :
    t = s ∨ ∃ e u, i = .dkg e ∧ Prepares cfg s.ca e u
      ∧ Ends u (s.ca.reactCalls S cfg e) t.ca ∧ t.calls = s.calls ++ s.ca.reactCalls S cfg e := by
  cases i with
  | dkg e =>
    simp only [LoggedCA.next] at h
    split at h
    next hen =>
      rw [← Option.some.inj h]
      obtain ⟨u, hprep, hend⟩ := react_ends S cfg s.ca e hen
      exact Or.inr ⟨e, u, rfl, hprep, hend, rfl⟩
    · exact absurd h (by simp)
  | credentialRequest c =>
    simp only [LoggedCA.next, handleCredentialRequest_state, Option.some.injEq] at h
    exact Or.inl h.symm
  | masterPubKeyRequest =>
    simp only [LoggedCA.next, handleMasterPubKeyRequest_state, Option.some.injEq] at h
    exact Or.inl h.symm

theorem next_forward (hs : Final s) (h : s.next S cfg i = some t) : Forward s t := by
  rcases next_cases h with rfl | ⟨e, u, -, hprep, hend, hcalls⟩
  · exact .refl _
  · obtain ⟨l, hA⟩ := hend.advances
    refine ⟨hprep.state ▸ hA.rank_le, fun hd => ?_⟩
    have hu : u.state = .done := hprep.state.trans hd
    obtain ⟨out, hlog, -⟩ := hend.logs
    have hca := (hprep.started (hs.started (by rw [hd]; simp))).2
    rw [hcalls, hlog.quiet hu, List.append_nil, advances_of_done hA hu]
    exact ⟨by simp only [CAState.keys, hca], rfl⟩

theorem next_final (hs : Final s) (h : s.next S cfg i = some t) : Final t := by
  rcases next_cases h with rfl | ⟨e, u, -, hprep, hend, hcalls⟩
  · exact hs
  · obtain ⟨l, hA⟩ := hend.advances
    obtain ⟨out, hlog, hout⟩ := hend.logs
    have hstart : Started u := fun hne => (hprep.started (hs.started (hprep.state ▸ hne))).1
    refine ⟨hA.started hstart, ?_, ?_⟩
    · rw [hcalls]
      refine List.pairwise_append.mpr ⟨hs.ordered, hlog.ordered, fun x hx y hy he => ?_⟩
      -- after a `finalizeDKG` that returned, the handlers call nothing
      have hd := hs.finalized (he ▸ hx)
      rw [hlog.quiet (hprep.state.trans hd)] at hy
      exact absurd hy (by simp)
    · intro hm
      rw [hcalls, List.mem_append] at hm
      by_cases hd : s.ca.state = .done
      · exact rank_done (hd ▸ (next_forward hs h).rank)
      · rcases hm with hm | hm
        · exact absurd (hs.finalized hm) hd
        · rw [← hout]
          exact (hlog.done_iff (by rw [hprep.state]; exact hd)).mp hm

omit [CommGroup G1] [CommGroup G2] [DecidableEq G1] in
theorem final_init (id : ℤ) : Final ({ ca := { caID := id } } : LoggedCA p G1 G2) :=
  ⟨fun h => absurd rfl h, .nil, fun h => absurd h (by simp)⟩

/-- Along a run. -/
theorem run_forward {ok : LoggedCA p G1 G2 → CAInput p G1 G2 → Prop}
    (h : Run (LoggedCA.next S cfg) ok s t) (hs : Final s) : Final t ∧ Forward s t := by
  induction h with
  | refl => exact ⟨hs, .refl s⟩
  | tail _ _ hst ih => exact ⟨next_final ih.1 hst, ih.2.trans (next_forward ih.1 hst)⟩

/-- The invariant of the runs of counted inputs: while the CA is not done,
`finalizeDKG` has not been called. -/
structure Single (cfg : Config p) (s : LoggedCA p G1 G2) : Prop where
  sound : Sound cfg s.ca
  final : Final s
  never : s.ca.state ≠ .done → s.calls.countP CryptoCall.finalizes = 0
  once : s.calls.countP CryptoCall.finalizes ≤ 1

theorem next_single (hs : Single cfg s) (hok : Counted cfg s i) (h : s.next S cfg i = some t) :
    Single cfg t := by
  have hfinal := next_final hs.final h
  rcases next_cases h with rfl | ⟨e, u, rfl, hprep, hend, hcalls⟩
  · exact hs
  · obtain ⟨out, hlog, hout⟩ := hend.logs
    obtain ⟨hsound, hnofail⟩ := hend.sound (hprep.sound s.calls hok hs.sound)
    have hcount : t.calls.countP CryptoCall.finalizes
        = s.calls.countP CryptoCall.finalizes
          + (s.ca.reactCalls S cfg e).countP CryptoCall.finalizes := by
      rw [hcalls, List.countP_append]
    have honce := hlog.once
    by_cases hd : s.ca.state = .done
    · have hquiet := hlog.quiet (hprep.state.trans hd)
      rw [hquiet, List.countP_nil, Nat.add_zero] at hcount
      have htd : t.ca.state = .done := rank_done (hd ▸ (next_forward hs.final h).rank)
      exact ⟨hsound, hfinal, fun hne => absurd htd hne, hcount ▸ hs.once⟩
    · have hzero := hs.never hd
      refine ⟨hsound, hfinal, fun hne => ?_, by omega⟩
      -- a call would have returned, and the CA would be done
      have hnone : (s.ca.reactCalls S cfg e).countP CryptoCall.finalizes = 0 := by
        rw [List.countP_eq_zero]
        intro x hx hfin
        cases x with
        | evaluateSecretPolynomial _ => exact absurd hfin (by simp [CryptoCall.finalizes])
        | evaluateBlindingPolynomial _ => exact absurd hfin (by simp [CryptoCall.finalizes])
        | finalizeDKG r =>
          cases r with
          | none =>
            refine hne ?_
            rw [← hout]
            exact (hlog.done_iff (by rw [hprep.state]; exact hd)).mp hx
          | some e => exact hnofail e hx
      omega

/-- **Finished keys are final.** Whatever connections come up and whatever
messages arrive: the phase only moves forward; the keys of a finished CA do not
change; no polynomial is evaluated after a `finalizeDKG` that cleared it; and
before `DONE` nothing is answered. If the inputs are counted, `finalizeDKG` is
called at most once. -/
theorem finished_keys_final {id : ℤ}
    (hs : Run (LoggedCA.next S cfg) (fun _ _ => True) { ca := { caID := id } } s)
    (ht : Run (LoggedCA.next S cfg) (fun _ _ => True) s t) :
    s.ca.state.rank ≤ t.ca.state.rank
      ∧ (s.ca.state = .done → t.ca.keys = s.ca.keys)
      ∧ t.calls.Pairwise Cleared
      ∧ (t.ca.state ≠ .done → ∀ i, t.ca.answers i = [])
      ∧ (id ∈ cfg.ids →
        Run (LoggedCA.next S cfg) (Counted cfg) { ca := { caID := id } } t →
          t.calls.countP CryptoCall.finalizes ≤ 1) := by
  obtain ⟨hfs, -⟩ := run_forward hs (final_init id)
  obtain ⟨hft, hfwd⟩ := run_forward ht hfs
  refine ⟨hfwd.rank, fun hd => (hfwd.keys hd).1, hft.ordered, fun hne i => ?_, fun hid hrun => ?_⟩
  · cases i with
    | dkg e => rfl
    | credentialRequest c => simp only [CAState.answers, handleCredentialRequest, if_pos hne]; rfl
    | masterPubKeyRequest => simp only [CAState.answers, handleMasterPubKeyRequest, if_pos hne]
  · have hinit : Single cfg ({ ca := { caID := id } } : LoggedCA p G1 G2) :=
      ⟨sound_init hid, final_init id, fun _ => rfl, Nat.zero_le _⟩
    exact (hrun.invariant hinit fun h hok hst => next_single h hok hst).once

end Runs

/-- CA 1 of two finishes, and a late hash changes nothing of its keys. -/
theorem finished_keys_final_two :
    ∃ s t, Run (LoggedCA.next (productSetup 5 2) (localConfig 5 2 2))
        (Counted (localConfig 5 2 2)) { ca := { caID := 1 } } s
      ∧ s.ca.state = .done
      ∧ s.next (productSetup 5 2) (localConfig 5 2 2) (.dkg (.receive (.commitmentHash 2 [])))
        = some t
      ∧ t.ca.keys = s.ca.keys ∧ t.calls.countP CryptoCall.finalizes ≤ 1 := by
  have hex : ∃ s, Run (LoggedCA.next (productSetup 5 2) (localConfig 5 2 2))
      (Counted (localConfig 5 2 2)) { ca := { caID := 1 } } s ∧ s.ca.state = .done :=
    exists_run [.dkg .startDKG, .dkg (.outConnectionUp ⟨"127.0.0.1", portOf 2⟩),
      .dkg (.receive (.commitmentHash 2 ((localConfig 5 2 2).hashOf (productSetup 5 2) 2))),
      .dkg (.receive (.reveal 2 ((localConfig 5 2 2).content (productSetup 5 2) 2))),
      .dkg (.receive (.share 2 0 3))] (by decide)
  obtain ⟨s, hrun, hd⟩ := hex
  obtain ⟨t, hnext⟩ : ∃ t, s.next (productSetup 5 2) (localConfig 5 2 2)
      (.dkg (.receive (.commitmentHash 2 []))) = some t := ⟨_, rfl⟩
  obtain ⟨-, hkeys, -, -, honce⟩ := finished_keys_final (hrun.mono fun _ _ _ => trivial)
    (Run.refl.tail trivial hnext)
  have hok : Counted (localConfig 5 2 2) s (.dkg (.receive (.commitmentHash 2 []))) := trivial
  exact ⟨s, t, hrun, hd, hnext, hkeys hd, honce (by decide) (hrun.tail hok hnext)⟩

/-- **`finalizeDKG` runs twice.** Complaints about CAs 7 and 8 stand in for the
missing share of CA 2, so the first call meets a `null`; then the share arrives. -/
theorem finalizeDKG_runs_twice :
    ∃ s, Run (LoggedCA.next (productSetup 5 2) (localConfig 5 2 2)) (fun _ _ => True)
        { ca := { caID := 1 } } s
      ∧ s.ca.state = .done ∧ s.calls.countP CryptoCall.finalizes = 2 :=
  exists_run [.dkg .startDKG, .dkg (.outConnectionUp ⟨"127.0.0.1", portOf 2⟩),
    .dkg (.receive (.commitmentHash 2 ((localConfig 5 2 2).hashOf (productSetup 5 2) 2))),
    .dkg (.receive (.complaint 2 7 "share failed verification")),
    .dkg (.receive (.reveal 2 ((localConfig 5 2 2).content (productSetup 5 2) 2))),
    .dkg (.receive (.complaint 2 8 "share failed verification")),
    .dkg (.receive (.share 2 0 3))] (by decide)

end Dittor.Dkg

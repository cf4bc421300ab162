import Dittor.Registration.Issuance
import Dittor.Registration.Registry
import Dittor.Dkg.Finality

/-!
# The whole demo: key generation, issuance and registration (`Main.java`)

`Main` fetches the master public key from a CA, starts the directory authority
with it and then one `UserProtocol` for each relay. Meanwhile the CAs may still
be in their key generation: a CA that is not `DONE` answers neither a master key
request nor a credential request, and nobody asks it again.

The state is the network of the CAs, the fetcher's result, the authority, the
users that were started, and every message sent so far. A message may be
delivered late, in any order, again, or never, so what holds here holds for
every schedule of the channels and for every timing of the `sleep`s of `Main`.

`AdmissionInv` is what every event keeps. Each handler of the user is looked at
once (`Handled`), and each event of the network puts the result back
(`AdmissionInv.afterUser`).
-/

namespace Dittor.Registration

open Dittor.Lib Dittor.Crypto Dittor.Dkg Polynomial

/-- What `Main` constructs a `UserProtocol` from. `Main` passes no family ids. -/
structure RelayNode (p : ℕ) where
  cryptoUser : User p
  nodeId : Text
  familyIds : List Text := []
  host : Host

/-- The configuration of the demo. The DA's port is below those of the CAs. -/
structure Deployment (p : ℕ) where
  cfg : Config p
  /-- The CA `fetchBlocking` is pointed at. -/
  firstCA : ℤ
  daHost : Host
  daHost_ne : ∀ k, cfg.host k ≠ daHost
  relays : List (RelayNode p)

/-- `caNetworkMap` -/
def Deployment.caNetworkMap {p : ℕ} (D : Deployment p) : AList (fun _ : Host => ℤ) :=
  D.cfg.ids.foldl (fun m k => m.insert (D.cfg.host k) k) ∅

/-- The state of the demo. A user is the index of its relay. -/
structure Demo (p : ℕ) (G1 G2 GT : Type) where
  net : Net p G1 G2 := Net.init
  /-- The result of the `MasterPubKeyFetcher`. -/
  mpk : Option (G1 × G2) := none
  da : Option (DA G2) := none
  user : ℕ → Option (UserState p G1 G2) := fun _ => none
  /-- The connections the users have opened. -/
  opened : List (ℕ × Host) := []
  mpkReplies : List (G1 × G2) := []
  /-- `CredentialRequestMsg`, with the user and the CA it is sent to. -/
  requests : List (ℕ × ℤ × G1) := []
  replies : List (ℕ × CredentialReplyMsg G1) := []
  registrations : List (ℕ × RegisterRelayMsg p G1 G2 GT) := []
  answers : List (ℕ × RegisterRelayReplyMsg) := []
  /-- The exceptions of the users' handlers and of the CAs'. -/
  userThrown : List (ℕ × JavaException) := []
  caThrown : List (ℤ × JavaException) := []

/-- What can happen. A message is named by its place among those sent. -/
inductive DemoEvent (p : ℕ) (G1 G2 : Type) where
  | dkg (e : Event p G1 G2)
  | masterPubKeyRequest
  | masterPubKeyReply (k : ℕ)
  | startRegistration (i : ℕ)
  /-- With the draw of the linkage proof. -/
  | outConnectionUp (i : ℕ) (target : Host) (draw : ZMod p)
  | credentialRequest (k : ℕ)
  | credentialReply (k : ℕ)
  | registerRelay (k : ℕ)

namespace Demo

variable {p : ℕ} {G1 G2 GT : Type}

/-- User `i` hands an action to the network. The serializer of a request throws
on a `null` commitment, and so does Babel on a `null` host. -/
def perform (s : Demo p G1 G2 GT) (i : ℕ) : UserAction p G1 G2 GT → Demo p G1 G2 GT
  | .openConnection (some h) => { s with opened := s.opened ++ [(i, h)] }
  | .openConnection none => { s with userThrown := s.userThrown ++ [(i, .nullPointer)] }
  | .credentialRequest _ caID (some c) => { s with requests := s.requests ++ [(i, caID, c)] }
  | .credentialRequest _ _ none => { s with userThrown := s.userThrown ++ [(i, .nullPointer)] }
  | .register _ msg => { s with registrations := s.registrations ++ [(i, msg)] }

/-- A handler of user `i` has run. -/
def afterUser (s : Demo p G1 G2 GT) (i : ℕ) (o : UserResult p G1 G2 GT) : Demo p G1 G2 GT :=
  let s := { s with user := Function.update s.user i (some o.state)
                    userThrown := s.userThrown ++ o.thrown.toList.map fun e => (i, e) }
  o.sent.foldl (fun s a => s.perform i a) s

/-- CA `j` answers the fetcher; the serializer throws on a `null` key. -/
def answerFetcher (s : Demo p G1 G2 GT) (j : ℤ) : CAReply G1 G2 → Demo p G1 G2 GT
  | .masterPubKey (some k1) (some k2) => { s with mpkReplies := s.mpkReplies ++ [(k1, k2)] }
  | .masterPubKey _ _ => { s with caThrown := s.caThrown ++ [(j, .nullPointer)] }
  | .credential _ => s

section Step

variable [CommGroup G1] [CommGroup G2] [CommGroup GT] [DecidableEq G1] [DecidableEq GT]
  (S : CryptimeleonSetup p G1 G2 GT) (D : Deployment p)

/-- The constructor of `UserProtocol` with the keys that were fetched. -/
def userProtocol (r : RelayNode p) (mpk : G1 × G2) : UserState p G1 G2 :=
  { cryptoUser := r.cryptoUser, threshold := D.cfg.threshold, mpkG1 := mpk.1, mpkG2 := mpk.2
    nodeId := r.nodeId, familyIds := r.familyIds }

/-- One event; `none` when it cannot happen. The two request handlers of a CA
leave its state alone (`handleCredentialRequest_state`). -/
def step (s : Demo p G1 G2 GT) : DemoEvent p G1 G2 → Option (Demo p G1 G2 GT)
  | .dkg e => (s.net.step S D.cfg (fun _ => true) e).map fun net => { s with net := net }
  | .masterPubKeyRequest =>
    if D.firstCA ∈ D.cfg.ids then
      some ((handleMasterPubKeyRequest (s.net.ca D.firstCA)).sent.foldl
        (fun s a => s.answerFetcher D.firstCA a) s)
    else none
  | .masterPubKeyReply k =>
    match s.mpkReplies[k]?, s.mpk with
    | some m, none => some { s with mpk := some m, da := some { mpkG2 := m.2 } }
    -- the future is completed once
    | some _, some _ => some s
    | none, _ => none
  | .startRegistration i =>
    match D.relays[i]?, s.mpk, s.user i with
    | some r, some m, none =>
      some (s.afterUser i ((userProtocol D r m).startRegistration S D.caNetworkMap D.daHost))
    | _, _, _ => none
  | .outConnectionUp i target draw =>
    if (i, target) ∈ s.opened then
      (s.user i).map fun u => s.afterUser i (u.onOutConnectionUp S draw target)
    else none
  | .credentialRequest k =>
    match s.requests[k]? with
    | some (i, j, c) =>
      if j ∈ D.cfg.ids then
        let o := handleCredentialRequest (s.net.ca j) c
        some { s with replies := s.replies ++ o.sent.map fun m => (i, m)
                      caThrown := s.caThrown ++ o.thrown.toList.map fun e => (j, e) }
      else none
    | none => none
  | .credentialReply k =>
    match s.replies[k]? with
    | some (i, msg) => (s.user i).map fun u => s.afterUser i (u.handleCredentialReply msg)
    | none => none
  | .registerRelay k =>
    match s.registrations[k]?, s.da with
    | some (i, msg), some da =>
      (D.relays[i]?).map fun r =>
        let o := handleRegisterRelay S da msg r.host
        { s with da := some o.state, answers := s.answers ++ o.sent.map fun e => (i, e.2) }
    | _, _ => none

end Step

end Demo

/-! ## The CAs' addresses -/

theorem Deployment.lookup_caNetworkMap {p : ℕ} (D : Deployment p) {h : Host} {j : ℤ}
    (hj : D.caNetworkMap.lookup h = some j) : j ∈ D.cfg.ids ∧ h = D.cfg.host j := by
  have hfold : ∀ (l : List ℤ) (m : AList (fun _ : Host => ℤ)),
      (∀ {h j}, m.lookup h = some j → j ∈ D.cfg.ids ∧ h = D.cfg.host j) →
      (∀ k ∈ l, k ∈ D.cfg.ids) →
      ∀ {h j}, (l.foldl (fun m k => m.insert (D.cfg.host k) k) m).lookup h = some j →
        j ∈ D.cfg.ids ∧ h = D.cfg.host j := by
    intro l
    induction l with
    | nil => intro m hm _ h j hj; exact hm hj
    | cons k l ih =>
      intro m hm hl
      refine ih _ ?_ fun i hi => hl i (List.mem_cons_of_mem k hi)
      intro h j hj
      by_cases hk : h = D.cfg.host k
      · subst hk
        rw [AList.lookup_insert] at hj
        rw [← Option.some.inj hj]
        exact ⟨hl k List.mem_cons_self, rfl⟩
      · rw [AList.lookup_insert_ne hk] at hj
        exact hm hj
  exact hfold _ _ (fun h => absurd h (by simp)) (fun _ h => h) hj

/-! ## What a user does -/

section User

variable {p : ℕ} [Fact p.Prime] {G1 G2 GT : Type} [CommGroup G1] [CommGroup G2]
  [CommGroup GT] (S : CryptimeleonSetup p G1 G2 GT) (D : Deployment p) (r : RelayNode p)

/-- `g1^{x · msk}` -/
noncomputable def RelayNode.credential : G1 :=
  zpw S.pairing.g1 (r.cryptoUser.secretX * D.cfg.masterSecret)

/-- The key the authority files the relay under. -/
def RelayNode.key : Text :=
  pseudonymKey S.codec torContext
    (zpw S.pairing.gpairing (pseudonymExponent S r.cryptoUser.secretX torContext))

/-- A user that was started with the master keys. -/
structure UserInv (u : UserState p G1 G2) : Prop where
  collecting : ∃ s₀ seen, Collecting S r.cryptoUser (jointPolynomial D.cfg) D.cfg.threshold s₀ seen u
    ∧ ∀ j ∈ seen, j ∈ D.cfg.ids
  waiting : u.thresholdReached = false → u.credential = none
  enough : u.thresholdReached = true → D.cfg.threshold ≤ u.receivedShares.keys.length
  commitment : u.blindedCommitment = some (r.cryptoUser.createBlindedCommit S.pairing.g1 S.h1)
  caMap : ∀ {h j}, u.caHostToIDMap.lookup h = some j → j ∈ D.cfg.ids ∧ h = D.cfg.host j
  daHost : u.daHost = some D.daHost
  nodeId : u.nodeId = r.nodeId
  familyIds : u.familyIds = r.familyIds

/-- What a user in state `u` may ask of the network. The DA is connected to once
there are enough shares. -/
def ActionOk (u : UserState p G1 G2) : UserAction p G1 G2 GT → Prop
  | .openConnection h => ∃ h' ∈ h, h' = D.daHost → u.thresholdReached = true
  | .credentialRequest _ j c =>
    j ∈ D.cfg.ids ∧ c = some (r.cryptoUser.createBlindedCommit S.pairing.g1 S.h1)
  | .register _ msg =>
    ∃ k, honestRegistration S r.cryptoUser k (r.credential S D) torContext r.nodeId r.familyIds
      = some msg

/-- What a handler leaves behind. It throws only when the VRF has no value at the secret. -/
structure Handled (o : UserResult p G1 G2 GT) : Prop where
  inv : UserInv S D r o.state
  sent : ∀ a ∈ o.sent, ActionOk S D r o.state a
  thrown : ∀ e ∈ o.thrown, e = .arithmetic
    ∧ r.cryptoUser.secretX + hashContext S torContext = 0

variable {S D r} {u : UserState p G1 G2}

theorem UserInv.credential_eq (h : UserInv S D r u) (hreached : u.thresholdReached = true) :
    u.credential = some (r.credential S D) := by
  obtain ⟨s₀, seen, hc, -⟩ := h.collecting
  rw [hc.issued hreached, credentialOf, RelayNode.credential, eval_jointPolynomial]
  rfl

/-- The credential is there exactly when enough CAs have answered. -/
theorem UserInv.credential_iff (h : UserInv S D r u) (ht : 0 < D.cfg.threshold) :
    D.cfg.threshold ≤ u.receivedShares.keys.length ↔ u.credential.isSome = true := by
  obtain ⟨s₀, seen, hc, -⟩ := h.collecting
  cases hreached : u.thresholdReached with
  | true =>
    rw [h.credential_eq hreached]
    simp [h.enough hreached]
  | false =>
    have hfew : ¬ D.cfg.threshold ≤ u.receivedShares.keys.length := by
      intro hle
      rcases hc.waiting hreached with hlt | hseen
      · omega
      · have hnil : u.receivedShares.keys = [] := by
          apply List.eq_nil_iff_forall_not_mem.mpr
          intro j hj
          have hjs := (hc.keys j).mp (AList.mem_keys.mpr hj)
          rw [hseen] at hjs
          exact List.not_mem_nil hjs
        rw [hnil, List.length_nil] at hle
        omega
    rw [h.waiting hreached]
    simp [hfew]

theorem length_keys_insert {β : Type} (m : AList fun _ : ℤ => β) (j : ℤ) (v : β) :
    m.keys.length ≤ (m.insert j v).keys.length := by
  rw [AList.keys_insert, List.length_cons]
  have := List.length_erase_add_one (a := j) (l := m.keys)
  by_cases hj : j ∈ m.keys
  · have := this hj
    omega
  · rw [List.erase_of_not_mem hj]
    omega

variable (GT) in
/-- `handleCredentialReply` on an honest CA's reply. -/
theorem UserInv.handleCredentialReply [ExpGroup p G1] (h : UserInv S D r u)
    (hn : D.cfg.n < p) {j : ℤ} (hj : j ∈ D.cfg.ids) :
    Handled S D r (u.handleCredentialReply (replyOf S r.cryptoUser (jointPolynomial D.cfg) j) :
      UserResult p G1 G2 GT)
    ∧ (u.thresholdReached = true →
      (u.handleCredentialReply (replyOf S r.cryptoUser (jointPolynomial D.cfg) j) :
        UserResult p G1 G2 GT).state.thresholdReached = true) := by
  obtain ⟨s₀, seen, hc, hseen⟩ := h.collecting
  have hrange : ∀ i ∈ D.cfg.ids, 1 ≤ i ∧ i ≤ D.cfg.n := fun i hi => D.cfg.mem_ids.mp hi
  have hreply : (u.handleCredentialReply (replyOf S r.cryptoUser (jointPolynomial D.cfg) j) :
      UserResult p G1 G2 GT).thrown = none ∧ _ :=
    hc.reply (degree_jointPolynomial_lt D.cfg) hn (fun i hi => hrange i (hseen i hi)) (hrange j hj)
  obtain ⟨hthrown, hstep⟩ := hreply
  have hmore := length_keys_insert u.receivedShares j
    (replyOf S r.cryptoUser (jointPolynomial D.cfg) j).signatureShare
  have hcollect : ∀ i ∈ j :: seen, i ∈ D.cfg.ids := by
    intro i hi
    rcases List.mem_cons.mp hi with rfl | hi
    · exact hj
    · exact hseen i hi
  revert hthrown hstep
  unfold UserState.handleCredentialReply UserState.putShare
  dsimp only
  split
  next hcond =>
    split
    · intro hthrown
      exact absurd hthrown (by simp)
    next agg hagg =>
      intro _ hstep
      refine ⟨⟨⟨⟨s₀, _, hstep, hcollect⟩, fun hf => absurd hf (by simp), fun _ => ?_,
        h.commitment, h.caMap, h.daHost, h.nodeId, h.familyIds⟩, ?_, ?_⟩, fun _ => rfl⟩
      · rw [hc.threshold] at hcond
        exact hcond.1
      · intro a ha
        rw [List.mem_singleton] at ha
        subst ha
        exact ⟨D.daHost, h.daHost, fun _ => rfl⟩
      · intro e he
        exact absurd he (by simp)
  next hcond =>
    intro _ hstep
    refine ⟨⟨⟨⟨s₀, _, hstep, hcollect⟩, h.waiting, fun hr => (h.enough hr).trans hmore,
      h.commitment, h.caMap, h.daHost, h.nodeId, h.familyIds⟩, ?_, ?_⟩, fun hr => hr⟩
    · intro a ha
      exact absurd ha (by simp)
    · intro e he
      exact absurd he (by simp)

/-- `startRegistration` with the master keys. -/
theorem startRegistration_handled :
    Handled S D r ((Demo.userProtocol D r
        (zpw S.h1 D.cfg.masterSecret, zpw S.pairing.g2 D.cfg.masterSecret)).startRegistration S
      D.caNetworkMap D.daHost : UserResult p G1 G2 GT) := by
  have hms : D.cfg.masterSecret = (jointPolynomial D.cfg).eval 0 :=
    (eval_jointPolynomial D.cfg 0).symm
  have hstart := collecting_start (S := S) (F := jointPolynomial D.cfg) (t := D.cfg.threshold)
    r.cryptoUser (zpw S.pairing.g2 D.cfg.masterSecret) r.nodeId r.familyIds D.caNetworkMap D.daHost
  rw [← hms] at hstart
  have hmap : D.caNetworkMap ∪ (∅ : AList fun _ : Host => ℤ) = D.caNetworkMap := AList.union_empty
  refine ⟨⟨⟨_, [], hstart, fun i hi => absurd hi List.not_mem_nil⟩, fun _ => rfl,
    fun hf => absurd hf Bool.false_ne_true, rfl, ?_, rfl, rfl, rfl⟩, ?_, fun e he => ?_⟩
  · intro h j hj
    exact D.lookup_caNetworkMap (hmap ▸ hj)
  · intro a ha
    obtain ⟨h, hh, rfl⟩ := List.mem_map.mp ha
    refine ⟨h, rfl, fun hda => ?_⟩
    -- the DA is none of the CAs
    obtain ⟨j, hj⟩ := Option.isSome_iff_exists.mp (AList.lookup_isSome.mpr (AList.mem_keys.mpr hh))
    obtain ⟨-, hhost⟩ := D.lookup_caNetworkMap (hmap ▸ hj)
    exact absurd (hhost.symm.trans hda) (D.daHost_ne j)
  · exact absurd he (by simp [UserState.startRegistration])

variable (GT) in
/-- `onOutConnectionUp`, where the DA's connection was opened with enough shares. -/
theorem UserInv.onOutConnectionUp (h : UserInv S D r u) {target : Host}
    (hda : target = D.daHost → u.thresholdReached = true) (draw : ZMod p) :
    Handled S D r (u.onOutConnectionUp S draw target)
      ∧ (u.onOutConnectionUp S draw target : UserResult p G1 G2 GT).state = u := by
  have huser : u.cryptoUser = r.cryptoUser := by
    obtain ⟨s₀, seen, hc, -⟩ := h.collecting
    exact hc.user
  unfold UserState.onOutConnectionUp UserState.sendRegistrationToDA
  rw [h.daHost]
  split
  next htarget =>
    rw [h.credential_eq (hda (Option.some.inj htarget).symm), huser, h.nodeId, h.familyIds]
    dsimp only
    split
    next hnone =>
      refine ⟨⟨h, fun a ha => absurd ha List.not_mem_nil, ?_⟩, rfl⟩
      intro e he
      obtain rfl : e = .arithmetic := (Option.mem_some.mp he).symm
      refine ⟨rfl, ?_⟩
      -- with a VRF value there would have been a message
      by_contra hne
      obtain ⟨msg, hmsg⟩ := honestRegistration_isSome S draw (r.credential S D) r.nodeId
        r.familyIds hne
      rw [hmsg] at hnone
      exact absurd hnone (by simp)
    next msg hmsg =>
      refine ⟨⟨h, ?_, fun e he => absurd he (by simp)⟩, rfl⟩
      intro a ha
      rw [List.mem_singleton] at ha
      subst ha
      exact ⟨draw, hmsg⟩
  next =>
    split
    next caID hlook =>
      refine ⟨⟨h, ?_, fun e he => absurd he (by simp)⟩, rfl⟩
      intro a ha
      rw [List.mem_singleton] at ha
      subst ha
      exact ⟨(h.caMap hlook).1, h.commitment⟩
    next => exact ⟨⟨h, fun a ha => absurd ha List.not_mem_nil, fun e he => absurd he (by simp)⟩, rfl⟩

end User

/-! ## The registry of the demo -/

section Table

variable {p : ℕ} [Fact p.Prime] {G1 G2 GT : Type} [CommGroup G1] [CommGroup G2]
  [CommGroup GT] (S : CryptimeleonSetup p G1 G2 GT) (D : Deployment p)

/-- Every entry of the table is that of one relay, alone. -/
def OwnEntries (R : Registrations) : Prop :=
  ∀ key E, R.lookup key = some E → ∃ r ∈ D.relays, key = r.key S
    ∧ E = AList.singleton r.nodeId r.familyIds.toFinset

/-- No two relays drew the same secret. -/
def DistinctSecrets : Prop := (D.relays.map fun r => r.cryptoUser.secretX).Nodup

variable {S D} [ExpGroup p GT]

theorem RelayNode.eq_of_key (hinj : Function.Injective S.codec.uniqueT) (hsec : DistinctSecrets D)
    {r r' : RelayNode p} (hr : r ∈ D.relays) (hr' : r' ∈ D.relays) (h : r.key S = r'.key S) :
    r = r' := by
  obtain ⟨-, hnym⟩ := pseudonymKey_inj hinj h
  exact List.inj_on_of_nodup_map hsec hr hr' ((pseudonym_inj S).mp hnym)

/-- A relay is let in, and the second time it is there already. -/
theorem OwnEntries.register {R : Registrations} (h : OwnEntries S D R)
    (hinj : Function.Injective S.codec.uniqueT) (hsec : DistinctSecrets D) {r : RelayNode p}
    (hr : r ∈ D.relays) :
    ∃ R', registerAt R (r.key S) r.nodeId r.familyIds.toFinset = (R', true) ∧ OwnEntries S D R'
      ∧ R'.lookup (r.key S) = some (AList.singleton r.nodeId r.familyIds.toFinset)
      ∧ ∀ key E, R.lookup key = some E → R'.lookup key = some E := by
  unfold registerAt
  cases hlook : R.lookup (r.key S) with
  | none =>
    refine ⟨_, rfl, ?_, AList.lookup_insert R, ?_⟩
    · intro key E hE
      by_cases hk : key = r.key S
      · subst hk
        rw [AList.lookup_insert] at hE
        exact ⟨r, hr, rfl, (Option.some.inj hE).symm⟩
      · rw [AList.lookup_insert_ne hk] at hE
        exact h key E hE
    · intro key E hE
      have hk : key ≠ r.key S := by
        intro hk
        rw [hk, hlook] at hE
        exact absurd hE (by simp)
      rw [AList.lookup_insert_ne hk]
      exact hE
  | some E =>
    obtain ⟨r', hr', hkey, rfl⟩ := h _ _ hlook
    obtain rfl := RelayNode.eq_of_key hinj hsec hr hr' hkey
    refine ⟨R, ?_, h, hlook, fun _ _ hE => hE⟩
    exact if_pos (mem_singleton.mpr rfl)

variable [ExpGroup p G1] [ExpGroup p G2] [DecidableEq GT]

/-- `handleRegisterRelay` on the message of a user with the credential. -/
theorem handleRegisterRelay_honest {da : DA G2} (hinj : Function.Injective S.codec.uniqueT)
    (hsec : DistinctSecrets D) (hmpk : da.mpkG2 = zpw S.pairing.g2 D.cfg.masterSecret)
    (hown : OwnEntries S D da.registrations) {r : RelayNode p} (hr : r ∈ D.relays) {k : ZMod p}
    {msg : RegisterRelayMsg p G1 G2 GT}
    (hmsg : honestRegistration S r.cryptoUser k (r.credential S D) torContext r.nodeId r.familyIds
      = some msg) (sender : Host) :
    ∃ R', handleRegisterRelay S da msg sender
        = { state := { da with registrations := R' }
            sent := [(sender, ⟨true, "Authorized: Added to Tor relay consensus directory."⟩)] }
      ∧ OwnEntries S D R'
      ∧ R'.lookup (r.key S) = some (AList.singleton r.nodeId r.familyIds.toFinset)
      ∧ ∀ key E, da.registrations.lookup key = some E → R'.lookup key = some E := by
  obtain ⟨R', hreg, hown', hlook, hkeep⟩ := hown.register hinj hsec hr
  have hauth : authorizes S da msg = true := (authorizes_honest_iff S hmpk hmsg).mpr rfl
  obtain ⟨-, rfl⟩ := honestRegistration_eq_some S hmsg
  refine ⟨R', ?_, hown', hlook, hkeep⟩
  unfold handleRegisterRelay DA.registerNode
  rw [if_pos hauth]
  dsimp only
  rw [show pseudonymKey S.codec torContext (zpw S.pairing.gpairing
      (pseudonymExponent S r.cryptoUser.secretX torContext)) = r.key S from rfl, hreg, if_pos rfl]

end Table

/-! ## What every event keeps -/

section Invariant

variable {p : ℕ} [Fact p.Prime] {G1 G2 GT : Type} [CommGroup G1] [CommGroup G2]
  [CommGroup GT] [DecidableEq G1] (S : CryptimeleonSetup p G1 G2 GT) (D : Deployment p)

/-- A relay is filed under its own key. -/
def Filed (s : Demo p G1 G2 GT) (r : RelayNode p) : Prop :=
  ∃ d ∈ s.da, d.registrations.lookup (r.key S)
    = some (AList.singleton r.nodeId r.familyIds.toFinset)

/-- The demo after any events. -/
structure AdmissionInv (s : Demo p G1 G2 GT) : Prop where
  dkg : Run (Net.step S D.cfg fun _ => true) (fun _ _ => True) Net.init s.net
  mpkReplies : ∀ k ∈ s.mpkReplies,
    k = (zpw S.h1 D.cfg.masterSecret, zpw S.pairing.g2 D.cfg.masterSecret)
  mpk : ∀ k ∈ s.mpk, k = (zpw S.h1 D.cfg.masterSecret, zpw S.pairing.g2 D.cfg.masterSecret)
  user : ∀ i u, s.user i = some u → ∃ r, D.relays[i]? = some r ∧ UserInv S D r u
  opened : ∀ i, (i, D.daHost) ∈ s.opened → ∃ u, s.user i = some u ∧ u.thresholdReached = true
  requests : ∀ e ∈ s.requests, ∃ r, D.relays[e.1]? = some r
    ∧ e.2.2 = r.cryptoUser.createBlindedCommit S.pairing.g1 S.h1
  replies : ∀ e ∈ s.replies, ∃ r j, D.relays[e.1]? = some r ∧ j ∈ D.cfg.ids
    ∧ e.2 = replyOf S r.cryptoUser (jointPolynomial D.cfg) j
  registrations : ∀ e ∈ s.registrations, ∃ r k, D.relays[e.1]? = some r
    ∧ honestRegistration S r.cryptoUser k (r.credential S D) torContext r.nodeId r.familyIds
      = some e.2
  da : ∀ d ∈ s.da, d.mpkG2 = zpw S.pairing.g2 D.cfg.masterSecret
    ∧ OwnEntries S D d.registrations
  mpk_da : s.mpk = none → s.da = none
  answers : ∀ e ∈ s.answers, e.2.success = true ∧ ∃ r, D.relays[e.1]? = some r ∧ Filed S s r
  userThrown : ∀ e ∈ s.userThrown, e.2 = .arithmetic ∧ ∃ r, D.relays[e.1]? = some r
    ∧ r.cryptoUser.secretX + hashContext S torContext = 0
  caThrown : s.caThrown = []

variable {S D} {s : Demo p G1 G2 GT} {i : ℕ} {r : RelayNode p}

theorem AdmissionInv.init : AdmissionInv S D ({} : Demo p G1 G2 GT) where
  dkg := .refl
  mpkReplies k hk := absurd hk List.not_mem_nil
  mpk k hk := absurd hk (by simp)
  user i u hu := absurd hu (by simp)
  opened i hi := absurd hi List.not_mem_nil
  requests e he := absurd he List.not_mem_nil
  replies e he := absurd he List.not_mem_nil
  registrations e he := absurd he List.not_mem_nil
  da d hd := absurd hd (by simp)
  mpk_da _ := rfl
  answers e he := absurd he List.not_mem_nil
  userThrown e he := absurd he List.not_mem_nil
  caThrown := rfl

/-- One action of a user. -/
theorem AdmissionInv.perform (h : AdmissionInv S D s) (hr : D.relays[i]? = some r)
    {u : UserState p G1 G2} (hu : s.user i = some u) {a : UserAction p G1 G2 GT}
    (ha : ActionOk S D r u a) :
    AdmissionInv S D (s.perform i a) ∧ (s.perform i a).user = s.user := by
  cases a with
  | openConnection target =>
    obtain ⟨host, rfl, hda⟩ := ha
    refine ⟨{ h with opened := ?_ }, rfl⟩
    intro i' hi'
    rcases List.mem_append.mp hi' with hold | hnew
    · exact h.opened i' hold
    · obtain ⟨rfl, hhost⟩ := Prod.mk.inj (List.mem_singleton.mp hnew)
      exact ⟨u, hu, hda hhost.symm⟩
  | credentialRequest target caID c =>
    obtain ⟨-, rfl⟩ := ha
    refine ⟨{ h with requests := ?_ }, rfl⟩
    intro e he
    rcases List.mem_append.mp he with hold | hnew
    · exact h.requests e hold
    · rw [List.mem_singleton.mp hnew]
      exact ⟨r, hr, rfl⟩
  | register target msg =>
    obtain ⟨k, hmsg⟩ := ha
    refine ⟨{ h with registrations := ?_ }, rfl⟩
    intro e he
    rcases List.mem_append.mp he with hold | hnew
    · exact h.registrations e hold
    · rw [List.mem_singleton.mp hnew]
      exact ⟨r, k, hr, hmsg⟩

/-- **One handler of a user.** -/
theorem AdmissionInv.afterUser (h : AdmissionInv S D s) (hr : D.relays[i]? = some r)
    {o : UserResult p G1 G2 GT} (ho : Handled S D r o)
    (hkeep : ∀ u, s.user i = some u → u.thresholdReached = true →
      o.state.thresholdReached = true) : AdmissionInv S D (s.afterUser i o) := by
  unfold Demo.afterUser
  have hfold : ∀ (l : List (UserAction p G1 G2 GT)) (s : Demo p G1 G2 GT),
      AdmissionInv S D s → s.user i = some o.state → (∀ a ∈ l, ActionOk S D r o.state a) →
      AdmissionInv S D (l.foldl (fun s a => s.perform i a) s) := by
    intro l
    induction l with
    | nil => intro s hs _ _; exact hs
    | cons a l ih =>
      intro s hs hu hl
      obtain ⟨hs', huser⟩ := hs.perform hr hu (hl a List.mem_cons_self)
      exact ih _ hs' (by rw [huser, hu]) fun b hb => hl b (List.mem_cons_of_mem a hb)
  refine hfold _ _ { h with user := ?_, opened := ?_, userThrown := ?_ }
    (Function.update_self ..) ho.sent
  · intro i' u hu
    change Function.update s.user i (some o.state) i' = some u at hu
    by_cases hi : i' = i
    · subst hi
      rw [Function.update_self] at hu
      rw [← Option.some.inj hu]
      exact ⟨r, hr, ho.inv⟩
    · rw [Function.update_of_ne hi] at hu
      exact h.user i' u hu
  · intro i' hi'
    obtain ⟨u, hu, hreached⟩ := h.opened i' hi'
    by_cases hi : i' = i
    · subst hi
      exact ⟨o.state, Function.update_self .., hkeep u hu hreached⟩
    · exact ⟨u, (Function.update_of_ne hi _ _).trans hu, hreached⟩
  · intro e he
    rcases List.mem_append.mp he with hold | hnew
    · exact h.userThrown e hold
    · obtain ⟨e', he', rfl⟩ := List.mem_map.mp hnew
      obtain ⟨harith, hzero⟩ := ho.thrown e' (Option.mem_toList.mp he')
      exact ⟨harith, r, hr, hzero⟩

variable [ExpGroup p G1] [ExpGroup p G2]

/-- CA `j` answers the fetcher with the master keys or not at all. -/
theorem AdmissionInv.masterPubKeyRequest (h : AdmissionInv S D s) (ht : 0 < D.cfg.threshold)
    {j : ℤ} (hj : j ∈ D.cfg.ids) :
    AdmissionInv S D ((handleMasterPubKeyRequest (s.net.ca j)).sent.foldl
      (fun s a => s.answerFetcher j a) s) := by
  unfold handleMasterPubKeyRequest
  split
  next => exact h
  next hdone =>
    obtain ⟨-, hkeys, -⟩ := honest_dkg_correct ht h.dkg
    obtain ⟨-, h1, h2⟩ := hkeys j hj (not_not.mp hdone)
    rw [h1, h2]
    refine { h with mpkReplies := ?_ }
    intro k hk
    rcases List.mem_append.mp hk with hold | hnew
    · exact h.mpkReplies k hold
    · rw [List.mem_singleton.mp hnew]
      rfl

/-- A CA signs the commitment with its share of the joint polynomial or not at all. -/
theorem AdmissionInv.credentialRequest (h : AdmissionInv S D s) (ht : 0 < D.cfg.threshold)
    (hr : D.relays[i]? = some r) {j : ℤ} (hj : j ∈ D.cfg.ids) :
    let o := handleCredentialRequest (s.net.ca j)
      (r.cryptoUser.createBlindedCommit S.pairing.g1 S.h1)
    AdmissionInv S D
      { s with replies := s.replies ++ o.sent.map fun m => (i, m)
               caThrown := s.caThrown ++ o.thrown.toList.map fun e => (j, e) } := by
  intro o
  by_cases hdone : (s.net.ca j).state = .done
  · have hsent := finished_ca_replies ht h.dkg hj hdone r.cryptoUser
    have hthrown : o.thrown = none := by
      obtain ⟨hI, hf⟩ := honest_run_inv ht h.dkg
      obtain ⟨hshare, -, -⟩ := hf j hj hdone
      show (handleCredentialRequest (s.net.ca j) _).thrown = none
      unfold handleCredentialRequest CA.issueSignatureShare
      rw [if_neg (by simpa using hdone), hshare, Option.map_some]
    refine { h with replies := ?_, caThrown := ?_ }
    · intro e he
      rcases List.mem_append.mp he with hold | hnew
      · exact h.replies e hold
      · obtain ⟨m, hm, rfl⟩ := List.mem_map.mp hnew
        rw [show o.sent = _ from hsent, List.mem_singleton] at hm
        exact ⟨r, j, hr, hj, hm⟩
    · show s.caThrown ++ o.thrown.toList.map _ = []
      rw [hthrown, h.caThrown]
      rfl
  · have hsilent : o = { state := s.net.ca j } := if_pos hdone
    rw [hsilent]
    refine { h with replies := ?_, caThrown := ?_ }
    · intro e he
      rcases List.mem_append.mp he with hold | hnew
      · exact h.replies e hold
      · exact absurd hnew List.not_mem_nil
    · show s.caThrown ++ [] = []
      rw [List.append_nil, h.caThrown]

variable [ExpGroup p GT] [DecidableEq GT]

/-- The authority lets in every relay that asks. -/
theorem AdmissionInv.registerRelay (h : AdmissionInv S D s)
    (hinj : Function.Injective S.codec.uniqueT) (hsec : DistinctSecrets D)
    (hr : D.relays[i]? = some r) {k : ZMod p} {msg : RegisterRelayMsg p G1 G2 GT}
    (hmsg : honestRegistration S r.cryptoUser k (r.credential S D) torContext r.nodeId r.familyIds
      = some msg) {da : DA G2} (hda : s.da = some da) (sender : Host) :
    let o := handleRegisterRelay S da msg sender
    AdmissionInv S D
      { s with da := some o.state, answers := s.answers ++ o.sent.map fun e => (i, e.2) } := by
  intro o
  obtain ⟨hmpk, hown⟩ := h.da da hda
  obtain ⟨R', hout, hown', hlook, hkeep⟩ := handleRegisterRelay_honest hinj hsec hmpk hown
    (List.mem_of_getElem? hr) hmsg sender
  rw [show o = _ from hout]
  refine { h with da := ?_, mpk_da := ?_, answers := ?_ }
  · intro d hd
    obtain rfl := Option.some.inj hd
    exact ⟨hmpk, hown'⟩
  · intro hnone
    rw [h.mpk_da hnone] at hda
    exact absurd hda (by simp)
  · intro e he
    rcases List.mem_append.mp he with hold | hnew
    · -- the relays filed before are still filed
      obtain ⟨hsucc, r', hr', d, hd, hfiled⟩ := h.answers e hold
      rw [hda] at hd
      obtain rfl := Option.some.inj hd
      exact ⟨hsucc, r', hr', _, rfl, hkeep _ _ hfiled⟩
    · rw [List.mem_singleton.mp hnew]
      exact ⟨rfl, r, hr, _, rfl, hlook⟩

/-- **Every event keeps the invariant.** -/
theorem AdmissionInv.step (h : AdmissionInv S D s) (ht : 0 < D.cfg.threshold)
    (hn : D.cfg.n < p) (hinj : Function.Injective S.codec.uniqueT) (hsec : DistinctSecrets D)
    {e : DemoEvent p G1 G2} {t : Demo p G1 G2 GT} (hst : s.step S D e = some t) :
    AdmissionInv S D t := by
  unfold Demo.step at hst
  cases e with
  | dkg e =>
    obtain ⟨net, hnet, rfl⟩ := Option.map_eq_some_iff.mp hst
    exact { h with dkg := h.dkg.tail trivial hnet }
  | masterPubKeyRequest =>
    dsimp only at hst
    split at hst
    next hj =>
      rw [← Option.some.inj hst]
      exact h.masterPubKeyRequest ht hj
    next => exact absurd hst (by simp)
  | masterPubKeyReply k =>
    dsimp only at hst
    split at hst
    next m hm hnone =>
      have hkeys := h.mpkReplies m (List.mem_of_getElem? hm)
      have hda := h.mpk_da hnone
      rw [← Option.some.inj hst]
      refine { h with mpk := ?_, da := ?_, mpk_da := ?_, answers := ?_ }
      · intro k hk
        rw [← Option.some.inj hk]
        exact hkeys
      · intro d hd
        obtain rfl := Option.some.inj hd
        exact ⟨by rw [hkeys], fun key E hE => absurd hE (by simp)⟩
      · intro hf
        exact absurd hf (by simp)
      · intro e he
        obtain ⟨-, r, -, d, hd, -⟩ := h.answers e he
        rw [hda] at hd
        exact absurd hd (by simp)
    next =>
      rw [← Option.some.inj hst]
      exact h
    next => exact absurd hst (by simp)
  | startRegistration i =>
    dsimp only at hst
    split at hst
    next r m hr hm hnone =>
      rw [← Option.some.inj hst, h.mpk m hm]
      refine h.afterUser hr startRegistration_handled fun u hu => ?_
      rw [hnone] at hu
      exact absurd hu (by simp)
    next => exact absurd hst (by simp)
  | outConnectionUp i target draw =>
    dsimp only at hst
    split at hst
    next hopen =>
      obtain ⟨u, hu, rfl⟩ := Option.map_eq_some_iff.mp hst
      obtain ⟨r, hr, hI⟩ := h.user i u hu
      have hda : target = D.daHost → u.thresholdReached = true := by
        intro htarget
        subst htarget
        obtain ⟨u', hu', hreached⟩ := h.opened i hopen
        rw [hu] at hu'
        rw [Option.some.inj hu']
        exact hreached
      obtain ⟨hout, hsame⟩ := hI.onOutConnectionUp GT hda draw
      refine h.afterUser hr hout fun u' hu' hreached => ?_
      rw [hsame]
      rw [hu] at hu'
      rw [Option.some.inj hu']
      exact hreached
    next => exact absurd hst (by simp)
  | credentialRequest k =>
    dsimp only at hst
    split at hst
    next i j c hreq =>
      obtain ⟨r, hr, hc⟩ := h.requests _ (List.mem_of_getElem? hreq)
      obtain rfl : c = _ := hc
      split at hst
      next hj =>
        rw [← Option.some.inj hst]
        exact h.credentialRequest ht hr hj
      next => exact absurd hst (by simp)
    next => exact absurd hst (by simp)
  | credentialReply k =>
    dsimp only at hst
    split at hst
    next i msg hrep =>
      obtain ⟨r, j, hr, hj, hmsg⟩ := h.replies _ (List.mem_of_getElem? hrep)
      obtain rfl : msg = _ := hmsg
      obtain ⟨u, hu, rfl⟩ := Option.map_eq_some_iff.mp hst
      obtain ⟨r', hr', hI⟩ := h.user i u hu
      obtain rfl : r = r' := Option.some.inj (hr.symm.trans hr')
      obtain ⟨hout, hkeep⟩ := hI.handleCredentialReply GT hn hj
      refine h.afterUser hr hout fun u' hu' hreached => ?_
      rw [hu] at hu'
      rw [← Option.some.inj hu'] at hreached
      exact hkeep hreached
    next => exact absurd hst (by simp)
  | registerRelay k =>
    dsimp only at hst
    split at hst
    next i msg da hreg hda =>
      obtain ⟨r, draw, hr, hmsg⟩ := h.registrations _ (List.mem_of_getElem? hreg)
      obtain ⟨r', hr', rfl⟩ := Option.map_eq_some_iff.mp hst
      obtain rfl : r = r' := Option.some.inj (hr.symm.trans hr')
      exact h.registerRelay hinj hsec hr hmsg hda r.host
    next => exact absurd hst (by simp)

end Invariant

/-- Two CAs and two relays. -/
def twoRelays : Deployment 5 where
  cfg := localConfig 5 2 2
  firstCA := 1
  daHost := ⟨"127.0.0.2", 10000⟩
  daHost_ne _ h := absurd (congrArg Host.address h) (show "127.0.0.1" ≠ "127.0.0.2" by decide)
  relays := [⟨⟨1, 4⟩, "000a".toList, [], ⟨"127.0.0.1", 8050⟩⟩,
    ⟨⟨2, 1⟩, "001a".toList, [], ⟨"127.0.0.1", 8051⟩⟩]

end Dittor.Registration

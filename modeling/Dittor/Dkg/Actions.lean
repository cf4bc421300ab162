import Dittor.Dkg.Protocol

/-!
# What one event can do to a CA

`CAProtocol.java` nests its phase checks and calls them from six handlers, so
a proof that unfolds handlers meets the same branches over and over. This file
says once what they come to. Delivering a message first *reacts* to it
(`Reacts`: one of eight guarded updates) and then *advances* through as many
phases as are complete (`Advances`: a chain of `Advance` steps). The two
inversion lemmas `handle_spec` and `connect_spec`, with `start_spec` for
`startDKG`, are all that the invariants of the following files use: an
invariant of the protocol is one case per constructor.

The converse direction, that a check never stops early, is `Settled`: no
handler leaves a phase that could still be completed
(`handle_settled`, `connect_settled`, `start_settled`).
-/

namespace Dittor.Dkg

open Dittor.Lib Dittor.Crypto

section Relations

variable {p : ℕ} {G1 G2 GT : Type} [CommGroup G1] [CommGroup G2] [CommGroup GT]
  [DecidableEq G1] (S : CryptimeleonSetup p G1 G2 GT)

/-- One completed phase, with the messages it sends. The two `Null` steps and
`finalizeThrows` are the runs that end in an exception. -/
inductive Advance : CAState p G1 G2 → List (Host × DkgMsg p G1 G2) → CAState p G1 G2 → Prop
  | toReveals {s : CAState p G1 G2} {peers : List (Host × ℤ)} {r : Reveal G1 G2}
      (hst : s.state = .awaitingHashes) (hpeers : s.hostToPeerId = some peers)
      (hn : s.n ≤ s.receivedHashes.keys.length)
      (hc : peers.length ≤ s.connectedPeerIds.card)
      (hr : s.cryptoCA.published = some r) :
      Advance s (s.revealMessages peers r)
        ({ s with state := .awaitingReveals }.putReveal s.caID r)
  | toRevealsNull {s : CAState p G1 G2} {peers : List (Host × ℤ)}
      (hst : s.state = .awaitingHashes) (hpeers : s.hostToPeerId = some peers)
      (hr : s.cryptoCA.published = none) :
      Advance s [] { s with state := .awaitingReveals }
  | toShares {s : CAState p G1 G2} {peers : List (Host × ℤ)} {c : Coefficients p}
      (hst : s.state = .awaitingReveals) (hn : s.n ≤ s.accountedReveals.card)
      (hpeers : s.hostToPeerId = some peers) (hc : s.cryptoCA.coefficients = some c) :
      Advance s (s.shareMessages peers c)
        ({ s with state := .awaitingShares }.putShare s.caID
          (evaluatePolynomial c.secretCoefficients s.caID))
  | toSharesNull {s : CAState p G1 G2} (hst : s.state = .awaitingReveals)
      (hnull : s.hostToPeerId = none ∨ s.cryptoCA.coefficients = none) :
      Advance s [] { s with state := .awaitingShares }
  | finalize {s : CAState p G1 G2} {ca : CA p G1 G2} (hst : s.state = .awaitingShares)
      (hn : s.n ≤ s.accountedShares.card) (ht : s.threshold ≤ s.qualifiedIds.length)
      (hf : s.finalize = (ca, none)) :
      Advance s [] { s with cryptoCA := ca, state := .done }
  | finalizeThrows {s : CAState p G1 G2} {ca : CA p G1 G2} {e : JavaException}
      (hst : s.state = .awaitingShares) (hf : s.finalize = (ca, some e)) :
      Advance s [] { s with cryptoCA := ca }

/-- A chain of completed phases. -/
inductive Advances :
    CAState p G1 G2 → List (Host × DkgMsg p G1 G2) → CAState p G1 G2 → Prop
  | refl (s : CAState p G1 G2) : Advances s [] s
  | head {s t u : CAState p G1 G2} {l l' : List (Host × DkgMsg p G1 G2)} :
      Advance s l t → Advances t l' u → Advances s (l ++ l') u

omit [CommGroup GT] [DecidableEq G1] in
theorem Advance.ne_done {s t : CAState p G1 G2} {l : List (Host × DkgMsg p G1 G2)}
    (hA : Advance s l t) : s.state ≠ .done := by
  cases hA with
  | toReveals h => rw [h]; simp
  | toRevealsNull h => rw [h]; simp
  | toShares h => rw [h]; simp
  | toSharesNull h => rw [h]; simp
  | finalize h => rw [h]; simp
  | finalizeThrows h => rw [h]; simp

omit [CommGroup GT] [DecidableEq G1] in
/-- No phase follows `DONE`. -/
theorem advances_of_done {s t : CAState p G1 G2} {l : List (Host × DkgMsg p G1 G2)}
    (hA : Advances s l t) (hst : s.state = .done) : t = s := by
  cases hA with
  | refl => rfl
  | head hA _ => exact absurd hst hA.ne_done

/-- The messages of `broadcastComplaint`: none while the peer map is `null`. -/
def complaints (s : CAState p G1 G2) (accusedId : ℤ) (reason : String) :
    List (Host × DkgMsg p G1 G2) :=
  match s.hostToPeerId with
  | none => []
  | some peers => s.complaintMessages peers accusedId reason

/-- The reaction to one message, before the phase checks. -/
inductive Reacts :
    CAState p G1 G2 → DkgMsg p G1 G2 → List (Host × DkgMsg p G1 G2) → CAState p G1 G2 → Prop
  | hash (s : CAState p G1 G2) (k : ℤ) (h : Text) :
      Reacts s (.commitmentHash k h) [] (s.putHash k h)
  | revealAccepted {s : CAState p G1 G2} {k : ℤ} {r : Reveal G1 G2}
      (hh : s.receivedHashes.lookup k = some (hashCommitments S r)) :
      Reacts s (.reveal k r) [] (s.putReveal k r)
  | revealRejected {s : CAState p G1 G2} {k : ℤ} {r : Reveal G1 G2} {reason : String}
      (hh : s.receivedHashes.lookup k ≠ some (hashCommitments S r)) :
      Reacts s (.reveal k r) (complaints s k reason) (s.disqualify k)
  | shareIgnored {s : CAState p G1 G2} {k : ℤ} {a b : ZMod p}
      (hign : k ∈ s.disqualifiedIds ∨ s.receivedCommitments.lookup k = none ∨
        ∃ C, s.receivedCommitments.lookup k = some C ∧ verifyShare S a b C s.caID = none) :
      Reacts s (.share k a b) [] s
  | shareAccepted {s : CAState p G1 G2} {k : ℤ} {a b : ZMod p} {C : List G1}
      (hq : k ∉ s.disqualifiedIds) (hC : s.receivedCommitments.lookup k = some C)
      (hv : verifyShare S a b C s.caID = some true) :
      Reacts s (.share k a b) [] (s.putShare k a)
  | shareRejected {s : CAState p G1 G2} {k : ℤ} {a b : ZMod p} {C : List G1}
      {reason : String}
      (hq : k ∉ s.disqualifiedIds) (hC : s.receivedCommitments.lookup k = some C)
      (hv : verifyShare S a b C s.caID = some false) :
      Reacts s (.share k a b) (complaints s k reason) (s.disqualify k)
  | complaint (s : CAState p G1 G2) (k a : ℤ) (reason : String) :
      Reacts s (.complaint k a reason) [] (s.disqualify a)

/-- The effect of an established connection, before the phase checks. -/
inductive Connects :
    CAState p G1 G2 → Host → List (Host × DkgMsg p G1 G2) → CAState p G1 G2 → Prop
  | ignored {s : CAState p G1 G2} {target : Host}
      (hign : (s.hostToPeerId.bind fun peers => peers.lookup target) = none ∨
        s.myCommitmentHash = none ∨ s.cryptoCA.published = none) :
      Connects s target [] s
  | early {s : CAState p G1 G2} {target : Host} {peers : List (Host × ℤ)} {k : ℤ} {h : Text}
      (hst : s.state = .awaitingHashes) (hpeers : s.hostToPeerId = some peers)
      (hk : peers.lookup target = some k) (hh : s.myCommitmentHash = some h) :
      Connects s target [(target, .commitmentHash s.caID h)] (s.connect k)
  | late {s : CAState p G1 G2} {target : Host} {peers : List (Host × ℤ)} {k : ℤ} {h : Text}
      {r : Reveal G1 G2} (hst : s.state ≠ .awaitingHashes)
      (hpeers : s.hostToPeerId = some peers) (hk : peers.lookup target = some k)
      (hh : s.myCommitmentHash = some h) (hr : s.cryptoCA.published = some r) :
      Connects s target [(target, .commitmentHash s.caID h), (target, .reveal s.caID r)]
        (s.connect k)

/-- The assignments of `startDKG` up to its phase check. -/
def launch (s : CAState p G1 G2) (peerHosts : List (Host × ℤ)) (threshold n : ℕ)
    (c : Coefficients p) (r : Reveal G1 G2) : CAState p G1 G2 :=
  { s with hostToPeerId := some peerHosts, threshold := threshold, n := n
           cryptoCA := { s.cryptoCA with coefficients := some c, published := some r }
           myCommitmentHash := some (hashCommitments S r) }.putHash s.caID (hashCommitments S r)

/-- The fields `startDKG` sets are set. -/
structure Ready (s : CAState p G1 G2) : Prop where
  peers : ∃ peers, s.hostToPeerId = some peers
  published : ∃ r, s.cryptoCA.published = some r
  coefficients : s.state ≠ .done → ∃ c, s.cryptoCA.coefficients = some c

/-- A state no phase check would move: what the current phase waits for is
still missing, too few CAs are left for the key, or `finalizeDKG` would throw. -/
structure Settled (s : CAState p G1 G2) : Prop where
  hashes : s.state = .awaitingHashes → ∀ peers, s.hostToPeerId = some peers →
    s.receivedHashes.keys.length < s.n ∨ s.connectedPeerIds.card < peers.length
  reveals : s.state = .awaitingReveals → s.accountedReveals.card < s.n
  shares : s.state = .awaitingShares →
    s.accountedShares.card < s.n ∨ s.qualifiedIds.length < s.threshold
      ∨ ∃ e, s.finalize.2 = some e

end Relations

namespace CAState

variable {p : ℕ} {G1 G2 GT : Type} [CommGroup G1] [CommGroup G2] [CommGroup GT]

/-! ## The checks are chains of phases -/

theorem checkShare_spec (s : CAState p G1 G2) :
    Advances s s.checkSharePhaseComplete.sent s.checkSharePhaseComplete.state := by
  unfold checkSharePhaseComplete
  split
  · exact .refl s
  next hst =>
    split
    · exact .refl s
    next hn =>
      split
      · exact .refl s
      next ht =>
        have hst' : s.state = .awaitingShares := not_not.mp hst
        split
        next ca e hf => exact .head (.finalizeThrows hst' hf) (.refl _)
        next ca hf =>
          exact .head (.finalize hst' (Nat.le_of_not_lt hn) (Nat.le_of_not_lt ht) hf) (.refl _)

theorem checkReveal_spec (s : CAState p G1 G2) :
    Advances s s.checkRevealPhaseComplete.sent s.checkRevealPhaseComplete.state := by
  unfold checkRevealPhaseComplete
  split
  · exact .refl s
  next hst =>
    split
    · exact .refl s
    next hn =>
      have hst' : s.state = .awaitingReveals := not_not.mp hst
      dsimp only
      split
      next peers c hp hc =>
        have hadv := Advance.toShares hst' (Nat.le_of_not_lt hn) hp hc
        rw [Outcome.andThen_ok]
        exact .head hadv (checkShare_spec _)
      next hnone =>
        refine .head (.toSharesNull hst' ?_) (.refl _)
        cases hp : s.hostToPeerId with
        | none => exact Or.inl rfl
        | some peers =>
          cases hc : s.cryptoCA.coefficients with
          | none => exact Or.inr rfl
          | some c => exact absurd hc (hnone peers c hp)

theorem checkHash_spec (s : CAState p G1 G2) :
    Advances s s.checkHashPhaseComplete.sent s.checkHashPhaseComplete.state := by
  unfold checkHashPhaseComplete
  split
  · exact .refl s
  next hst =>
    have hst' : s.state = .awaitingHashes := not_not.mp hst
    split
    · exact .refl s
    next peers hp =>
      split
      · exact .refl s
      next hn =>
        split
        · exact .refl s
        next hc =>
          dsimp only
          split
          next hr => exact .head (.toRevealsNull hst' hp hr) (.refl _)
          next r hr =>
            have hadv := Advance.toReveals hst' hp (Nat.le_of_not_lt hn) (Nat.le_of_not_lt hc) hr
            rw [Outcome.andThen_ok]
            exact .head hadv (checkReveal_spec _)

/-! ## The handlers react, then advance -/

/-- A broadcast complaint followed by a check: the complaints go out, and the
check runs unless the peer map was `null`. -/
theorem broadcastComplaint_spec (s : CAState p G1 G2) (k : ℤ) (reason : String)
    {f : CAState p G1 G2 → Result p G1 G2} (hf : ∀ t, Advances t (f t).sent (f t).state) :
    ∃ l, ((s.broadcastComplaint k reason).andThen f).sent = complaints s k reason ++ l
      ∧ Advances s l ((s.broadcastComplaint k reason).andThen f).state := by
  unfold broadcastComplaint complaints
  cases s.hostToPeerId with
  | none => exact ⟨[], rfl, .refl s⟩
  | some peers => exact ⟨(f s).sent, rfl, hf s⟩

variable [DecidableEq G1] (S : CryptimeleonSetup p G1 G2 GT)

/-- **Delivering a message**: the reaction, then the phases it completes. -/
theorem handle_spec (s : CAState p G1 G2) (m : DkgMsg p G1 G2) :
    ∃ l₁ t l₂, Reacts S s m l₁ t ∧ Advances t l₂ (s.handle S m).state
      ∧ (s.handle S m).sent = l₁ ++ l₂ := by
  cases m with
  | commitmentHash k h =>
    refine ⟨[], s.putHash k h, (s.handleCommitmentHash k h).sent, .hash s k h, ?_, rfl⟩
    show Advances _ (s.handleCommitmentHash k h).sent (s.handleCommitmentHash k h).state
    unfold handleCommitmentHash
    dsimp only
    split
    · exact checkHash_spec _
    · exact .refl _
  | reveal k r =>
    show ∃ l₁ t l₂, _ ∧ Advances t l₂ (s.handleReveal S k r).state
      ∧ (s.handleReveal S k r).sent = l₁ ++ l₂
    unfold handleReveal
    split
    next hnone =>
      obtain ⟨l, hl, hadv⟩ := broadcastComplaint_spec (s.disqualify k) k
        "revealed before publishing commitment hash" checkReveal_spec
      exact ⟨_, _, l, .revealRejected (by rw [hnone]; simp), hadv, hl⟩
    next h hsome =>
      split
      next hne =>
        -- both rejections disqualify the sender first, and then check the phase
        obtain ⟨l, hl, hadv⟩ := broadcastComplaint_spec (s.disqualify k) k
          "revealed commitments do not match published hash" checkReveal_spec
        refine ⟨_, _, l, .revealRejected ?_, hadv, hl⟩
        rw [hsome]
        intro he
        exact hne (Option.some.inj he).symm
      next heq =>
        have hacc : s.receivedHashes.lookup k = some (hashCommitments S r) := by
          rw [hsome, not_not.mp heq]
        refine ⟨[], s.putReveal k r, _, .revealAccepted hacc, ?_, rfl⟩
        dsimp only
        split
        · exact checkReveal_spec _
        · exact .refl _
  | share k a b =>
    show ∃ l₁ t l₂, _ ∧ Advances t l₂ (s.handleShare S k a b).state
      ∧ (s.handleShare S k a b).sent = l₁ ++ l₂
    unfold handleShare
    split
    -- an ignored share does not even check the phase
    next hq => exact ⟨[], s, [], .shareIgnored (Or.inl hq), .refl s, rfl⟩
    next hq =>
      split
      next hnone => exact ⟨[], s, [], .shareIgnored (Or.inr (Or.inl hnone)), .refl s, rfl⟩
      next C hC =>
        split
        next hv =>
          exact ⟨[], s, [], .shareIgnored (Or.inr (Or.inr ⟨C, hC, hv⟩)), .refl s, rfl⟩
        next hv =>
          obtain ⟨l, hl, hadv⟩ := broadcastComplaint_spec (s.disqualify k) k
            "share failed verification" checkShare_spec
          exact ⟨_, _, l, .shareRejected hq hC hv, hadv, hl⟩
        next hv =>
          refine ⟨[], s.putShare k a, _, .shareAccepted hq hC hv, ?_, rfl⟩
          dsimp only
          split
          · exact checkShare_spec _
          · exact .refl _
  | complaint k a reason =>
    refine ⟨[], s.disqualify a, (s.handleComplaint a).sent, .complaint s k a reason, ?_, rfl⟩
    show Advances _ (s.handleComplaint a).sent (s.handleComplaint a).state
    unfold handleComplaint
    dsimp only
    -- a complaint can complete the phase of the reveals or that of the shares
    split
    · exact checkReveal_spec _
    · exact checkShare_spec _
    · exact .refl _

omit [DecidableEq G1] in
/-- **A connection comes up**: the hash goes out, and the phases it completes. -/
theorem connect_spec (s : CAState p G1 G2) (target : Host) :
    ∃ l₁ t l₂, Connects s target l₁ t ∧ Advances t l₂ (s.onOutConnectionUp target).state
      ∧ (s.onOutConnectionUp target).sent = l₁ ++ l₂ := by
  unfold onOutConnectionUp
  split
  next hnone => exact ⟨[], s, [], .ignored (Or.inl hnone), .refl s, rfl⟩
  next k hk =>
    obtain ⟨peers, hpeers, hlook⟩ := Option.bind_eq_some_iff.mp hk
    split
    next h r hh hr =>
      split
      next hst => exact ⟨_, _, [], .late hst hpeers hlook hh hr, .refl _, rfl⟩
      next hst =>
        rw [Outcome.andThen_ok]
        exact ⟨_, _, _, .early (not_not.mp hst) hpeers hlook hh, checkHash_spec _, rfl⟩
    next hnone =>
      refine ⟨[], s, [], .ignored (Or.inr ?_), .refl s, rfl⟩
      cases hh : s.myCommitmentHash with
      | none => exact Or.inl rfl
      | some h =>
        cases hr : s.cryptoCA.published with
        | none => exact Or.inr rfl
        | some r => exact absurd hr (hnone h r hh)

omit [DecidableEq G1] in
/-- **`startDKG`** with a positive threshold: the assignments, then the phases
they complete (with one CA, all of them). -/
theorem start_spec (s : CAState p G1 G2) (peers : List (Host × ℤ)) (threshold n : ℕ)
    (secret blinding : ℕ → ZMod p) {r : Reveal G1 G2}
    (hr : computeCommitments S (generatePrivatePolynomial threshold secret blinding) = some r) :
    Advances
      (launch S s peers threshold n (generatePrivatePolynomial threshold secret blinding) r)
      (s.startDKG S peers threshold n secret blinding).sent
      (s.startDKG S peers threshold n secret blinding).state := by
  unfold startDKG
  dsimp only
  split
  next hnone => exact absurd (hnone.symm.trans hr) (by simp)
  next r' hr' =>
    have he : r' = r := Option.some.inj (hr'.symm.trans hr)
    subst he
    exact checkHash_spec _

/-! ## The checks leave nothing to do -/

omit [CommGroup GT] [DecidableEq G1] in
theorem settled_hashes {s : CAState p G1 G2} (hst : s.state = .awaitingHashes)
    (h : ∀ peers, s.hostToPeerId = some peers →
      s.receivedHashes.keys.length < s.n ∨ s.connectedPeerIds.card < peers.length) : Settled s where
  hashes _ := h
  reveals h' := absurd (hst.symm.trans h') (by simp)
  shares h' := absurd (hst.symm.trans h') (by simp)

omit [CommGroup GT] [DecidableEq G1] in
theorem settled_reveals {s : CAState p G1 G2} (hst : s.state = .awaitingReveals)
    (h : s.accountedReveals.card < s.n) : Settled s where
  hashes h' := absurd (hst.symm.trans h') (by simp)
  reveals _ := h
  shares h' := absurd (hst.symm.trans h') (by simp)

omit [CommGroup GT] [DecidableEq G1] in
theorem settled_shares {s : CAState p G1 G2} (hst : s.state = .awaitingShares)
    (h : s.accountedShares.card < s.n ∨ s.qualifiedIds.length < s.threshold
      ∨ ∃ e, s.finalize.2 = some e) : Settled s where
  hashes h' := absurd (hst.symm.trans h') (by simp)
  reveals h' := absurd (hst.symm.trans h') (by simp)
  shares _ := h

omit [DecidableEq G1] in
/-- Whether `finalizeDKG` throws depends on the received lists only. -/
theorem finalizeDKG_throws (ca ca' : CA p G1 G2) (a : List (Option (ZMod p)))
    (b : List (Option G1)) (c : List (Option G2)) :
    (ca.finalizeDKG a b c).2 = (ca'.finalizeDKG a b c).2 := by
  unfold CA.finalizeDKG
  split
  · rfl
  · split
    · rfl
    · split
      · rfl
      · rfl

omit [DecidableEq G1] in
/-- **The keys a finished CA computes**, from its maps: every qualified id has
a share, and nothing else enters. -/
theorem finalize_ok {s : CAState p G1 G2} {ca : CA p G1 G2} (h : s.finalize = (ca, none)) :
    ca.secretKeyShare
        = some (s.qualifiedIds.map fun id => (s.receivedSecretShares.lookup id).getD 0).sum
      ∧ ca.masterPubKeyG1
        = some (s.qualifiedIds.map fun id => (s.receivedPubKeyG1.lookup id).getD 1).prod
      ∧ ca.masterPubKeyG2
        = some (s.qualifiedIds.map fun id => (s.receivedPubKeyG2.lookup id).getD 1).prod
      ∧ ∀ id ∈ s.qualifiedIds, id ∈ s.receivedSecretShares := by
  obtain ⟨a, b, c, ⟨ha, hb, hc⟩, h1, h2, h3⟩ := finalizeDKG_ok h
  have hval : ∀ {α : Type} (d : α) (l : List (Option α)) (l' : List α), l = l'.map some →
      l' = l.map (·.getD d) := by
    intro α d l l' hl
    rw [hl, List.map_map]
    exact (List.map_id' l').symm
  refine ⟨?_, ?_, ?_, ?_⟩
  · rw [h1, hval 0 _ _ ha, List.map_map]
    rfl
  · rw [h2, hval 1 _ _ hb, List.map_map]
    rfl
  · rw [h3, hval 1 _ _ hc, List.map_map]
    rfl
  · intro id hid
    have hmem : s.receivedSecretShares.lookup id ∈ a.map some := by
      rw [← ha]
      exact List.mem_map_of_mem hid
    obtain ⟨v, -, hv⟩ := List.mem_map.mp hmem
    exact AList.lookup_isSome.mp (by rw [← hv]; rfl)

omit [DecidableEq G1] in
theorem checkShare_settled {s : CAState p G1 G2}
    (h : s.state ≠ .awaitingShares → Settled s) : Settled s.checkSharePhaseComplete.state := by
  unfold checkSharePhaseComplete
  split
  next hst => exact h hst
  next hst =>
    have hst' : s.state = .awaitingShares := not_not.mp hst
    split
    next hn => exact settled_shares hst' (Or.inl hn)
    next hn =>
      split
      next ht => exact settled_shares hst' (Or.inr (Or.inl ht))
      next ht =>
        split
        next ca e hf =>
          -- the CA object has changed, but it would throw again
          refine settled_shares hst' (Or.inr (Or.inr ⟨e, ?_⟩))
          have hsnd : s.finalize.2 = some e := by rw [hf]
          rw [← hsnd]
          exact finalizeDKG_throws _ _ _ _ _
        next ca hf =>
          exact ⟨fun h' => by simp at h', fun h' => by simp at h', fun h' => by simp at h'⟩

omit [DecidableEq G1] in
theorem checkReveal_settled {s : CAState p G1 G2} (hr : s.state = .awaitingReveals → Ready s)
    (h : s.state ≠ .awaitingReveals → Settled s) :
    Settled s.checkRevealPhaseComplete.state := by
  unfold checkRevealPhaseComplete
  split
  next hst => exact h hst
  next hst =>
    have hst' : s.state = .awaitingReveals := not_not.mp hst
    split
    next hn =>
      exact settled_reveals hst' hn
    next hn =>
      obtain ⟨peers, hp⟩ := (hr hst').peers
      obtain ⟨c, hc⟩ := (hr hst').coefficients (by rw [hst']; simp)
      dsimp only
      rw [hp, hc]
      dsimp only
      rw [Outcome.andThen_ok]
      exact checkShare_settled fun hne => absurd rfl hne

omit [DecidableEq G1] in
theorem checkHash_settled {s : CAState p G1 G2} (hr : s.hostToPeerId ≠ none → Ready s)
    (h : s.state ≠ .awaitingHashes → Settled s) : Settled s.checkHashPhaseComplete.state := by
  unfold checkHashPhaseComplete
  split
  next hst => exact h hst
  next hst =>
    have hst' : s.state = .awaitingHashes := not_not.mp hst
    split
    next hp => exact settled_hashes hst' fun peers hp' => absurd (hp.symm.trans hp') (by simp)
    next peers hp =>
      have hsame : ∀ peers', s.hostToPeerId = some peers' → peers' = peers :=
        fun _ hp' => Option.some.inj (hp'.symm.trans hp)
      split
      next hn => exact settled_hashes hst' fun _ _ => Or.inl hn
      next hn =>
        split
        next hc =>
          exact settled_hashes hst' fun peers' hp' => Or.inr (by rw [hsame peers' hp']; exact hc)
        next hc =>
          -- the phase is complete, and what it sends has been computed by `startDKG`
          have hready := hr (by rw [hp]; simp)
          obtain ⟨r, hr'⟩ := hready.published
          dsimp only
          rw [hr']
          dsimp only
          rw [Outcome.andThen_ok]
          refine checkReveal_settled (fun _ => ⟨hready.peers, hready.published, fun _ => ?_⟩)
            fun hne => absurd rfl hne
          exact hready.coefficients (by rw [hst']; simp)

/-- A hash leaves the CA settled. -/
theorem handleHash_settled {s : CAState p G1 G2} (hr : s.hostToPeerId ≠ none → Ready s)
    (hs : Settled s) (k : ℤ) (h : Text) :
    Settled (s.handle S (.commitmentHash k h)).state := by
  show Settled (s.handleCommitmentHash k h).state
  unfold handleCommitmentHash
  dsimp only
  split
  next hst =>
    exact checkHash_settled (fun hp => ⟨(hr hp).peers, (hr hp).published, (hr hp).coefficients⟩)
      fun hne => absurd hst hne
  next hst =>
    exact ⟨fun h' => absurd h' hst, hs.reveals, hs.shares⟩

/-- An accepted reveal leaves the CA settled, unless all shares had already
been counted (then the qualified ids may change). -/
theorem handleReveal_settled {s : CAState p G1 G2} (hr : s.state = .awaitingReveals → Ready s)
    (hs : Settled s) {k : ℤ} {r : Reveal G1 G2}
    (hh : s.receivedHashes.lookup k = some (hashCommitments S r))
    (hn : s.state = .awaitingShares → s.accountedShares.card < s.n) :
    Settled (s.handle S (.reveal k r)).state := by
  show Settled (s.handleReveal S k r).state
  unfold handleReveal
  rw [hh]
  dsimp only
  rw [if_neg (by simp)]
  split
  next hst =>
    exact checkReveal_settled
      (fun _ => ⟨(hr hst).peers, (hr hst).published, (hr hst).coefficients⟩)
      fun hne => absurd hst hne
  next hst => exact ⟨hs.hashes, fun h' => absurd h' hst, fun h' => Or.inl (hn h')⟩

/-- A share that verifies leaves the CA settled. -/
theorem handleShare_settled {s : CAState p G1 G2} (hs : Settled s) {k : ℤ} {a b : ZMod p}
    {C : List G1} (hq : k ∉ s.disqualifiedIds) (hC : s.receivedCommitments.lookup k = some C)
    (hv : verifyShare S a b C s.caID = some true) :
    Settled (s.handle S (.share k a b)).state := by
  show Settled (s.handleShare S k a b).state
  unfold handleShare
  rw [if_neg hq, hC]
  dsimp only
  rw [hv]
  dsimp only
  split
  next hst => exact checkShare_settled fun hne => absurd hst hne
  next hst => exact ⟨hs.hashes, hs.reveals, fun h' => absurd h' hst⟩

omit [DecidableEq G1] in
/-- A new connection leaves the CA settled. -/
theorem connect_settled {s : CAState p G1 G2} (hr : s.hostToPeerId ≠ none → Ready s)
    (hs : Settled s) (target : Host) : Settled (s.onOutConnectionUp target).state := by
  unfold onOutConnectionUp
  split
  · exact hs
  next k hk =>
    split
    next h r hh hr' =>
      split
      next hst => exact ⟨fun h' => absurd h' hst, hs.reveals, hs.shares⟩
      next hst =>
        rw [Outcome.andThen_ok]
        exact checkHash_settled
          (fun hp => ⟨(hr hp).peers, (hr hp).published, (hr hp).coefficients⟩)
          fun hne => absurd (not_not.mp hst) hne
    · exact hs

omit [DecidableEq G1] in
/-- `startDKG` leaves the CA settled. -/
theorem start_settled {s : CAState p G1 G2} (hst : s.state = .awaitingHashes)
    (peers : List (Host × ℤ)) (threshold n : ℕ) (secret blinding : ℕ → ZMod p) {r : Reveal G1 G2}
    (hr : computeCommitments S (generatePrivatePolynomial threshold secret blinding) = some r) :
    Settled (s.startDKG S peers threshold n secret blinding).state := by
  unfold startDKG
  dsimp only
  rw [hr]
  exact checkHash_settled (fun _ => ⟨⟨_, rfl⟩, ⟨_, rfl⟩, fun _ => ⟨_, rfl⟩⟩)
    fun hne => absurd hst hne

end CAState

end Dittor.Dkg

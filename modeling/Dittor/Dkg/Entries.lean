import Dittor.Dkg.Exceptions

/-!
# Which entries of its maps a CA changes

`CAProtocol.java` keeps five maps by CA id. Its handlers receive the host a
message came from and never look at it: the id they use is the one the message
carries, so a peer that claims another id writes that id's entries, the
receiver's own included (`claimed_ids_overwrite`).

What does hold, in every state and for every message, is `handle_entries`: the
entries of one id change, those of the id in the message, and when the message
completes a phase the receiver adds its own. `Advance.entry_of_ne` and
`Advance.own` are the two facts about one completed phase, and the chain of
phases a handler may run through follows by induction.
-/

namespace Dittor.Dkg

open Dittor.Lib Dittor.Crypto

/-- What the five maps hold under one id. -/
structure Entry (p : ℕ) (G1 G2 : Type) where
  hash : Option Text
  commitments : Option (List G1)
  pubKeyG1 : Option G1
  pubKeyG2 : Option G2
  secretShare : Option (ZMod p)
deriving DecidableEq

section Entries

variable {p : ℕ} {G1 G2 GT : Type}

/-- The entry of an id. -/
def CAState.entry (s : CAState p G1 G2) (id : ℤ) : Entry p G1 G2 where
  hash := s.receivedHashes.lookup id
  commitments := s.receivedCommitments.lookup id
  pubKeyG1 := s.receivedPubKeyG1.lookup id
  pubKeyG2 := s.receivedPubKeyG2.lookup id
  secretShare := s.receivedSecretShares.lookup id

/-- `hostToPeerId.get` -/
def CAState.peerIdOf (s : CAState p G1 G2) (host : Host) : Option ℤ :=
  s.hostToPeerId.bind fun peers => peers.lookup host

/-- `msg.getSenderID()` of the three messages that carry entries; a complaint
has none. -/
def DkgMsg.entryId : DkgMsg p G1 G2 → Option ℤ
  | .commitmentHash k _ => some k
  | .reveal k _ => some k
  | .share k _ _ => some k
  | .complaint _ _ _ => none

/-- The place of a phase in `AWAITING_HASHES, …, DONE`. -/
def DkgState.rank : DkgState → ℕ
  | .awaitingHashes => 0
  | .awaitingReveals => 1
  | .awaitingShares => 2
  | .done => 3

/-- How a CA's own entry may change while a peer's message is handled: the
hash stays; the commitments and keys are entered when the hashes are complete,
and are the ones it computed itself; the share is entered when the reveals are
complete, and is the value of its own polynomial. -/
structure OwnEntry (s t : CAState p G1 G2) : Prop where
  hash : (t.entry s.caID).hash = (s.entry s.caID).hash
  reveal : ((t.entry s.caID).commitments = (s.entry s.caID).commitments
      ∧ (t.entry s.caID).pubKeyG1 = (s.entry s.caID).pubKeyG1
      ∧ (t.entry s.caID).pubKeyG2 = (s.entry s.caID).pubKeyG2)
    ∨ s.state = .awaitingHashes ∧ t.state ≠ .awaitingHashes
      ∧ ∃ r, s.cryptoCA.published = some r
        ∧ (t.entry s.caID).commitments = some r.commitmentsG1
        ∧ (t.entry s.caID).pubKeyG1 = some r.pubKeyG1
        ∧ (t.entry s.caID).pubKeyG2 = some r.pubKeyG2
  share : (t.entry s.caID).secretShare = (s.entry s.caID).secretShare
    ∨ (s.state = .awaitingHashes ∨ s.state = .awaitingReveals)
      ∧ (t.state = .awaitingShares ∨ t.state = .done)
      ∧ ∃ c, s.cryptoCA.coefficients = some c
        ∧ (t.entry s.caID).secretShare
          = some (evaluatePolynomial c.secretCoefficients s.caID)

/-! ## The updates, entry by entry -/

theorem entry_putHash_of_ne (s : CAState p G1 G2) {k id : ℤ} (h : id ≠ k) (x : Text) :
    (s.putHash k x).entry id = s.entry id := by
  simp only [CAState.entry, CAState.putHash, AList.lookup_insert_ne h]

theorem entry_putReveal_of_ne (s : CAState p G1 G2) {k id : ℤ} (h : id ≠ k)
    (r : Reveal G1 G2) : (s.putReveal k r).entry id = s.entry id := by
  simp only [CAState.entry, CAState.putReveal, AList.lookup_insert_ne h]

theorem entry_putShare_of_ne (s : CAState p G1 G2) {k id : ℤ} (h : id ≠ k) (a : ZMod p) :
    (s.putShare k a).entry id = s.entry id := by
  simp only [CAState.entry, CAState.putShare, AList.lookup_insert_ne h]

variable [CommGroup G1] [CommGroup G2] [CommGroup GT]

/-- The reaction to a message touches the id the message carries. -/
theorem Reacts.entry_of_ne [DecidableEq G1] {S : CryptimeleonSetup p G1 G2 GT}
    {s t : CAState p G1 G2} {m : DkgMsg p G1 G2} {l : List (Host × DkgMsg p G1 G2)}
    (hR : Reacts S s m l t) {id : ℤ} (h : m.entryId ≠ some id) : t.entry id = s.entry id := by
  cases hR with
  | hash k x => exact entry_putHash_of_ne s (fun he => h (by rw [he]; rfl)) x
  | revealAccepted => exact entry_putReveal_of_ne s (fun he => h (by rw [he]; rfl)) _
  | revealRejected => rfl
  | shareIgnored => rfl
  | shareAccepted => exact entry_putShare_of_ne s (fun he => h (by rw [he]; rfl)) _
  | shareRejected => rfl
  | complaint => rfl

/-- A reaction leaves the phase and what the CA computed itself alone. -/
theorem Reacts.same [DecidableEq G1] {S : CryptimeleonSetup p G1 G2 GT}
    {s t : CAState p G1 G2} {m : DkgMsg p G1 G2} {l : List (Host × DkgMsg p G1 G2)}
    (hR : Reacts S s m l t) :
    t.caID = s.caID ∧ t.state = s.state ∧ t.cryptoCA = s.cryptoCA := by
  cases hR <;> exact ⟨rfl, rfl, rfl⟩

/-- A completed phase touches the CA's own entry only. -/
theorem Advance.entry_of_ne {s t : CAState p G1 G2} {l : List (Host × DkgMsg p G1 G2)}
    (hA : Advance s l t) {id : ℤ} (h : id ≠ s.caID) : t.entry id = s.entry id := by
  cases hA with
  | toReveals => exact entry_putReveal_of_ne _ h _
  | toRevealsNull => rfl
  | toShares => exact entry_putShare_of_ne _ h _
  | toSharesNull => rfl
  | finalize => rfl
  | finalizeThrows => rfl

theorem Advance.caID_eq {s t : CAState p G1 G2} {l : List (Host × DkgMsg p G1 G2)}
    (hA : Advance s l t) : t.caID = s.caID := by
  cases hA <;> rfl

theorem Advances.caID_eq {s t : CAState p G1 G2} {l : List (Host × DkgMsg p G1 G2)}
    (hA : Advances s l t) : t.caID = s.caID := by
  induction hA with
  | refl => rfl
  | head hA _ ih => exact ih.trans hA.caID_eq

theorem Advances.entry_of_ne {s t : CAState p G1 G2} {l : List (Host × DkgMsg p G1 G2)}
    (hA : Advances s l t) {id : ℤ} (h : id ≠ s.caID) : t.entry id = s.entry id := by
  induction hA with
  | refl => rfl
  | head hA _ ih => exact (ih (by rw [hA.caID_eq]; exact h)).trans (hA.entry_of_ne h)

/-! ## The own entry along the phases -/

omit [CommGroup G1] [CommGroup G2] in
theorem OwnEntry.refl (s : CAState p G1 G2) : OwnEntry s s :=
  ⟨rfl, Or.inl ⟨rfl, rfl, rfl⟩, Or.inl rfl⟩

/-- A completed phase moves forward or, when `finalizeDKG` throws, stays. -/
theorem Advance.rank_le {s t : CAState p G1 G2} {l : List (Host × DkgMsg p G1 G2)}
    (hA : Advance s l t) : s.state.rank ≤ t.state.rank := by
  cases hA with
  | toReveals hst => rw [hst]; exact Nat.le_of_ble_eq_true rfl
  | toRevealsNull hst => rw [hst]; exact Nat.le_of_ble_eq_true rfl
  | toShares hst => rw [hst]; exact Nat.le_of_ble_eq_true rfl
  | toSharesNull hst => rw [hst]; exact Nat.le_of_ble_eq_true rfl
  | finalize hst => rw [hst]; exact Nat.le_of_ble_eq_true rfl
  | finalizeThrows => exact Nat.le_refl _

theorem Advances.rank_le {s t : CAState p G1 G2} {l : List (Host × DkgMsg p G1 G2)}
    (hA : Advances s l t) : s.state.rank ≤ t.state.rank := by
  induction hA with
  | refl => exact Nat.le_refl _
  | head hA _ ih => exact Nat.le_trans hA.rank_le ih

omit [CommGroup G1] [CommGroup G2] in
/-- Beyond the hashes the own commitments and keys stay. -/
theorem OwnEntry.reveal_eq {s t : CAState p G1 G2} (h : OwnEntry s t)
    (hst : s.state ≠ .awaitingHashes) :
    (t.entry s.caID).commitments = (s.entry s.caID).commitments
      ∧ (t.entry s.caID).pubKeyG1 = (s.entry s.caID).pubKeyG1
      ∧ (t.entry s.caID).pubKeyG2 = (s.entry s.caID).pubKeyG2 := by
  rcases h.reveal with he | ⟨hst', -⟩
  · exact he
  · exact absurd hst' hst

omit [CommGroup G1] [CommGroup G2] in
/-- Beyond the reveals the own share stays. -/
theorem OwnEntry.share_eq {s t : CAState p G1 G2} (h : OwnEntry s t)
    (h1 : s.state ≠ .awaitingHashes) (h2 : s.state ≠ .awaitingReveals) :
    (t.entry s.caID).secretShare = (s.entry s.caID).secretShare := by
  rcases h.share with he | ⟨hst, -⟩
  · exact he
  · rcases hst with hst | hst
    · exact absurd hst h1
    · exact absurd hst h2

/-- One more phase in front. -/
theorem OwnEntry.head {s t u : CAState p G1 G2} {l : List (Host × DkgMsg p G1 G2)}
    (hA : Advance s l t) (hu : t.state.rank ≤ u.state.rank) (h : OwnEntry t u) :
    OwnEntry s u := by
  cases hA with
  | toReveals hst hpeers hn hc hr =>
    obtain ⟨e1, e2, e3⟩ := h.reveal_eq (by simp [CAState.putReveal])
    refine ⟨h.hash, Or.inr ⟨hst, ?_, _, hr, ?_, ?_, ?_⟩, ?_⟩
    · intro hback
      rw [hback] at hu
      exact absurd hu (by simp [DkgState.rank, CAState.putReveal])
    · exact e1.trans (AList.lookup_insert _)
    · exact e2.trans (AList.lookup_insert _)
    · exact e3.trans (AList.lookup_insert _)
    · rcases h.share with he | ⟨-, hshare⟩
      · exact Or.inl he
      · exact Or.inr ⟨Or.inl hst, hshare⟩
  | toRevealsNull hst =>
    refine ⟨h.hash, Or.inl (h.reveal_eq (by simp)), ?_⟩
    rcases h.share with he | ⟨-, hshare⟩
    · exact Or.inl he
    · exact Or.inr ⟨Or.inl hst, hshare⟩
  | toShares hst hn hpeers hc =>
    refine ⟨h.hash, Or.inl (h.reveal_eq (by simp [CAState.putShare])),
      Or.inr ⟨Or.inr hst, ?_, _, hc, ?_⟩⟩
    · -- the state can only have gone on to `DONE`
      cases hlast : u.state with
      | awaitingHashes => rw [hlast] at hu; simp [DkgState.rank, CAState.putShare] at hu
      | awaitingReveals => rw [hlast] at hu; simp [DkgState.rank, CAState.putShare] at hu
      | awaitingShares => exact Or.inl rfl
      | done => exact Or.inr rfl
    · exact (h.share_eq (by simp [CAState.putShare]) (by simp [CAState.putShare])).trans
        (AList.lookup_insert _)
  | toSharesNull hst =>
    exact ⟨h.hash, Or.inl (h.reveal_eq (by simp)), Or.inl (h.share_eq (by simp) (by simp))⟩
  | finalize hst =>
    exact ⟨h.hash, Or.inl (h.reveal_eq (by simp)), Or.inl (h.share_eq (by simp) (by simp))⟩
  | finalizeThrows hst =>
    exact ⟨h.hash, Or.inl (h.reveal_eq (by rw [hst]; simp)),
      Or.inl (h.share_eq (by rw [hst]; simp) (by rw [hst]; simp))⟩

theorem Advances.own {s t : CAState p G1 G2} {l : List (Host × DkgMsg p G1 G2)}
    (hA : Advances s l t) : OwnEntry s t := by
  induction hA with
  | refl s => exact .refl s
  | head hA hrest ih => exact .head hA hrest.rank_le ih

omit [CommGroup G1] [CommGroup G2] in
/-- The state before the reaction may stand for the one after it. -/
theorem OwnEntry.from {r s t : CAState p G1 G2} (h : OwnEntry s t) (hid : s.caID = r.caID)
    (hst : s.state = r.state) (hca : s.cryptoCA = r.cryptoCA)
    (hentry : s.entry r.caID = r.entry r.caID) : OwnEntry r t := by
  obtain ⟨h1, h2, h3⟩ := h
  rw [hid, hentry] at h1 h2 h3
  rw [hst, hca] at h2 h3
  exact ⟨h1, h2, h3⟩

end Entries

section Handlers

variable {p : ℕ} {G1 G2 GT : Type} [CommGroup G1] [CommGroup G2] [CommGroup GT]
  [DecidableEq G1] (S : CryptimeleonSetup p G1 G2 GT)

/-- The registered handler with all it is given; none reads the sending host. -/
def CAState.handleFrom (s : CAState p G1 G2) (_sender : Host) (m : DkgMsg p G1 G2) :
    Result p G1 G2 :=
  s.handle S m

/-- **A message writes the id it carries.** Whatever the state and whichever
host sent it, handling a message changes the five maps at the id in the message
and, where that completes a phase, at the CA's own id, with the values it
computed itself. -/
theorem handle_entries (s : CAState p G1 G2) (sender : Host) (m : DkgMsg p G1 G2) :
    (∀ id, m.entryId ≠ some id → id ≠ s.caID →
        (s.handleFrom S sender m).state.entry id = s.entry id)
      ∧ (m.entryId ≠ some s.caID → OwnEntry s (s.handleFrom S sender m).state) := by
  obtain ⟨l₁, t, l₂, hR, hA, -⟩ := s.handle_spec S m
  obtain ⟨hid, hst, hca⟩ := hR.same
  constructor
  · intro id hm hself
    exact (hA.entry_of_ne (by rw [hid]; exact hself)).trans (hR.entry_of_ne hm)
  · intro hm
    exact hA.own.from hid hst hca (hR.entry_of_ne hm)

end Handlers

/-- **Claimed ids are believed.** Among three CAs, CA 1 after `startDKG`: a hash
from CA 2's host replaces the entry of CA 3, and CA 1's own, and so does one
from a host that is no peer. Among two, CA 2's own hash completes the phase and
CA 1 enters its own reveal. -/
theorem claimed_ids_overwrite :
    (∃ s, Run (CAState.next (productSetup 5 2) (localConfig 5 3 2)) (fun _ _ => True)
        { caID := 1 } s
      ∧ s.peerIdOf ⟨"127.0.0.1", portOf 2⟩ = some 2 ∧ s.peerIdOf ⟨"192.0.2.1", 9000⟩ = none
      ∧ (s.handleFrom (productSetup 5 2) ⟨"127.0.0.1", portOf 2⟩
          (.commitmentHash 3 [])).state.entry 3 ≠ s.entry 3
      ∧ (s.handleFrom (productSetup 5 2) ⟨"127.0.0.1", portOf 2⟩
          (.commitmentHash 1 [])).state.entry 1 ≠ s.entry 1
      ∧ (s.handleFrom (productSetup 5 2) ⟨"192.0.2.1", 9000⟩
          (.commitmentHash 3 [])).state.entry 3 ≠ s.entry 3)
      ∧ ∃ s, Run (CAState.next (productSetup 5 2) (localConfig 5 2 2)) (fun _ _ => True)
          { caID := 1 } s
        ∧ s.peerIdOf ⟨"127.0.0.1", portOf 2⟩ = some 2
        ∧ (s.handleFrom (productSetup 5 2) ⟨"127.0.0.1", portOf 2⟩
            (.commitmentHash 2 ((localConfig 5 2 2).hashOf (productSetup 5 2) 2))).state.entry 1
          ≠ s.entry 1 := by
  constructor
  · exact exists_run [.startDKG] (by decide)
  · exact exists_run [.startDKG, .outConnectionUp ⟨"127.0.0.1", portOf 2⟩] (by decide)

end Dittor.Dkg

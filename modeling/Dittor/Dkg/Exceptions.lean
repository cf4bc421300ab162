import Dittor.Dkg.Invariant

/-!
# Which messages make a handler throw

One CA, and a peer that may send it anything: the events are the call of
`startDKG`, connections coming up, and messages as the deserializers produce
them, in any order and before or after `startDKG`.

Three kinds of messages make a handler of `CAProtocol.java` throw.
`broadcastComplaint` walks `hostToPeerId`, which is `null` until `startDKG`, so
a reveal or share that is rejected before that ends in a
`NullPointerException`. `verifyShare` reads the first commitment of a list that
may be empty. And the phase checks count ids instead of comparing them with
`1..n`: a reveal or complaint under any other id can stand in for a missing
share, and `finalizeDKG` then meets a `null` (`peer_messages_throw`).

`Harmless` is the condition that a step is none of these, `Sound` the invariant
of the runs whose steps all are, and `handlers_never_throw` says that in such a
run no handler throws and that a CA finalizes with a share and both keys for
every qualified id. The counting is then sound: the accounted ids are ids of
`1..n`, so `n` of them are all of them (`Sound.complete`).
-/

namespace Dittor.Dkg

open Dittor.Lib Dittor.Crypto

/-- What can happen to one CA. -/
inductive CAEvent (p : ℕ) (G1 G2 : Type) where
  | startDKG
  | outConnectionUp (target : Host)
  | receive (m : DkgMsg p G1 G2)

section Machine

variable {p : ℕ} {G1 G2 GT : Type} [CommGroup G1] [CommGroup G2] [CommGroup GT]
  [DecidableEq G1] (S : CryptimeleonSetup p G1 G2 GT) (cfg : Config p)

/-- The handler of an event. -/
def CAState.react (s : CAState p G1 G2) : CAEvent p G1 G2 → Result p G1 G2
  | .startDKG => s.startDKG S (cfg.peers s.caID) cfg.threshold cfg.n (cfg.secret s.caID)
      (cfg.blinding s.caID)
  | .outConnectionUp target => s.onOutConnectionUp target
  | .receive m => s.handle S m

/-- `startDKG` is called once, after `init`; everything else can happen at any time. -/
def CAState.Enabled (s : CAState p G1 G2) : CAEvent p G1 G2 → Prop
  | .startDKG => s.hostToPeerId.isNone = true
  | _ => True

instance (s : CAState p G1 G2) (e : CAEvent p G1 G2) : Decidable (s.Enabled e) :=
  match e with
  | .startDKG => (inferInstance : Decidable (_ = _))
  | .outConnectionUp _ => isTrue trivial
  | .receive _ => isTrue trivial

/-- One event of one CA; after an exception the CA goes on from the state the
handler left. -/
def CAState.next (s : CAState p G1 G2) (e : CAEvent p G1 G2) : Option (CAState p G1 G2) :=
  if s.Enabled e then some (s.react S cfg e).state else none

/-- The step is none of the kinds that make a handler throw: no id outside
`1..n` is revealed or accused before the end, no share meets an empty
commitment list, nothing is rejected before `startDKG`, and the threshold
`startDKG` gets is positive. -/
def Harmless (s : CAState p G1 G2) : CAEvent p G1 G2 → Prop
  | .startDKG => 0 < cfg.threshold
  | .outConnectionUp _ => True
  | .receive (.commitmentHash _ _) => True
  | .receive (.reveal k r) =>
    (s.state ≠ .done → k ∈ cfg.ids)
      ∧ (s.receivedHashes.lookup k ≠ some (hashCommitments S r) → s.hostToPeerId.isSome = true)
  | .receive (.share k a b) => k ∉ s.disqualifiedIds →
    ∀ C ∈ s.receivedCommitments.lookup k, C ≠ []
      ∧ (verifyShare S a b C s.caID = some false → s.hostToPeerId.isSome = true)
  | .receive (.complaint _ accused _) => s.state ≠ .done → accused ∈ cfg.ids

instance (s : CAState p G1 G2) (e : CAEvent p G1 G2) : Decidable (Harmless S cfg s e) :=
  match e with
  | .startDKG => (inferInstance : Decidable (_ < _))
  | .outConnectionUp _ => isTrue trivial
  | .receive (.commitmentHash _ _) => isTrue trivial
  | .receive (.reveal _ _) => (inferInstance : Decidable (_ ∧ _))
  | .receive (.share _ _ _) => (inferInstance : Decidable (_ → _))
  | .receive (.complaint _ _ _) => (inferInstance : Decidable (_ → _))

/-- Every qualified id has a recorded share and both public keys. -/
def Complete (s : CAState p G1 G2) : Prop :=
  ∀ k ∈ s.qualifiedIds,
    k ∈ s.receivedSecretShares ∧ k ∈ s.receivedPubKeyG1 ∧ k ∈ s.receivedPubKeyG2

instance (s : CAState p G1 G2) : Decidable (Complete s) :=
  (inferInstance : Decidable (∀ k ∈ s.qualifiedIds, _))

/-- The invariant of a CA all of whose steps were harmless. -/
structure Sound (s : CAState p G1 G2) : Prop where
  self : s.caID ∈ cfg.ids
  started : s.state ≠ .awaitingHashes → s.hostToPeerId.isSome = true
  ready : s.hostToPeerId.isSome = true →
    Ready s ∧ s.myCommitmentHash.isSome = true ∧ s.n = cfg.n ∧ 0 < s.threshold
  keys : ∀ k ∈ s.receivedCommitments, k ∈ s.receivedPubKeyG1 ∧ k ∈ s.receivedPubKeyG2
  ids : s.state ≠ .done → ∀ k, k ∈ s.receivedCommitments ∨ k ∈ s.receivedSecretShares
    ∨ k ∈ s.disqualifiedIds → k ∈ cfg.ids

/-- What a handler called in state `s` should come to. -/
structure Safe (s : CAState p G1 G2) (out : Result p G1 G2) : Prop where
  thrown : out.thrown = none
  sound : Sound cfg out.state
  complete : s.state ≠ .done → out.state.state = .done → Complete out.state

end Machine

section Updates

variable {p : ℕ} {G1 G2 : Type} {cfg : Config p} {s : CAState p G1 G2}

theorem Sound.putHash (hs : Sound cfg s) (k : ℤ) (h : Text) : Sound cfg (s.putHash k h) :=
  ⟨hs.self, hs.started, fun hp => ⟨⟨(hs.ready hp).1.peers, (hs.ready hp).1.published,
    (hs.ready hp).1.coefficients⟩, (hs.ready hp).2⟩, hs.keys, hs.ids⟩

theorem Sound.connect (hs : Sound cfg s) (k : ℤ) : Sound cfg (s.connect k) :=
  ⟨hs.self, hs.started, fun hp => ⟨⟨(hs.ready hp).1.peers, (hs.ready hp).1.published,
    (hs.ready hp).1.coefficients⟩, (hs.ready hp).2⟩, hs.keys, hs.ids⟩

theorem Sound.putReveal (hs : Sound cfg s) {k : ℤ} (hk : s.state ≠ .done → k ∈ cfg.ids)
    (r : Reveal G1 G2) : Sound cfg (s.putReveal k r) := by
  refine ⟨hs.self, hs.started, fun hp => ⟨⟨(hs.ready hp).1.peers, (hs.ready hp).1.published,
    (hs.ready hp).1.coefficients⟩, (hs.ready hp).2⟩, ?_, ?_⟩
  · intro i hi
    rcases (AList.mem_insert _).mp hi with he | hi
    · exact ⟨(AList.mem_insert _).mpr (Or.inl he), (AList.mem_insert _).mpr (Or.inl he)⟩
    · exact ⟨(AList.mem_insert _).mpr (Or.inr (hs.keys i hi).1),
        (AList.mem_insert _).mpr (Or.inr (hs.keys i hi).2)⟩
  · intro hst i hi
    rcases hi with hi | hi
    · rcases (AList.mem_insert _).mp hi with he | hi
      · rw [he]
        exact hk hst
      · exact hs.ids hst i (Or.inl hi)
    · exact hs.ids hst i (Or.inr hi)

theorem Sound.putShare (hs : Sound cfg s) {k : ℤ} (hk : s.state ≠ .done → k ∈ cfg.ids)
    (a : ZMod p) : Sound cfg (s.putShare k a) := by
  refine ⟨hs.self, hs.started, fun hp => ⟨⟨(hs.ready hp).1.peers, (hs.ready hp).1.published,
    (hs.ready hp).1.coefficients⟩, (hs.ready hp).2⟩, hs.keys, ?_⟩
  intro hst i hi
  rcases hi with hi | hi | hi
  · exact hs.ids hst i (Or.inl hi)
  · rcases (AList.mem_insert _).mp hi with he | hi
    · rw [he]
      exact hk hst
    · exact hs.ids hst i (Or.inr (Or.inl hi))
  · exact hs.ids hst i (Or.inr (Or.inr hi))

theorem Sound.disqualify (hs : Sound cfg s) {k : ℤ} (hk : s.state ≠ .done → k ∈ cfg.ids) :
    Sound cfg (s.disqualify k) := by
  refine ⟨hs.self, hs.started, fun hp => ⟨⟨(hs.ready hp).1.peers, (hs.ready hp).1.published,
    (hs.ready hp).1.coefficients⟩, (hs.ready hp).2⟩, hs.keys, ?_⟩
  intro hst i hi
  rcases hi with hi | hi | hi
  · exact hs.ids hst i (Or.inl hi)
  · exact hs.ids hst i (Or.inr (Or.inl hi))
  · rcases Finset.mem_insert.mp hi with he | hi
    · rw [he]
      exact hk hst
    · exact hs.ids hst i (Or.inr (Or.inr hi))

/-- A started CA moves to another phase before the last. -/
theorem Sound.enter (hs : Sound cfg s) (hp : s.hostToPeerId.isSome = true)
    (hst : s.state ≠ .done) (q : DkgState) : Sound cfg { s with state := q } :=
  ⟨hs.self, fun _ => hp, fun _ => ⟨⟨(hs.ready hp).1.peers, (hs.ready hp).1.published,
    fun _ => (hs.ready hp).1.coefficients hst⟩, (hs.ready hp).2⟩, hs.keys, fun _ => hs.ids hst⟩

end Updates

section Checks

variable {p : ℕ} {G1 G2 : Type} {cfg : Config p} {s t : CAState p G1 G2} {out : Result p G1 G2}

theorem Sound.safe (hs : Sound cfg s) : Safe cfg s { state := s } :=
  ⟨rfl, hs, fun hne hst => absurd hst hne⟩

/-- The state a check starts from may be a later one of the same handler. -/
theorem Safe.from (h : Safe cfg t out) (hne : t.state = .done → s.state = .done) :
    Safe cfg s out :=
  ⟨h.thrown, h.sound, fun hs => h.complete fun ht => hs (hne ht)⟩

/-- Sent messages in front change nothing. -/
theorem Safe.andThen {f : CAState p G1 G2 → Result p G1 G2} (h : Safe cfg s (f s))
    (l : List (Host × DkgMsg p G1 G2)) : Safe cfg s ((Outcome.mk s l none).andThen f) :=
  ⟨h.thrown, h.sound, h.complete⟩

/-- **The counting is sound among `1..n`**: when `n` ids are accounted for,
every qualified one has its share and its keys. -/
theorem Sound.complete (hs : Sound cfg s) (hst : s.state = .awaitingShares)
    (hn : s.n ≤ s.accountedShares.card) : Complete s := by
  have hlive : s.state ≠ .done := by rw [hst]; simp
  obtain ⟨-, -, hcn, -⟩ := hs.ready (hs.started (by rw [hst]; simp))
  have hsub : s.accountedShares ⊆ cfg.ids.toFinset := by
    intro k hk
    rw [List.mem_toFinset]
    rcases Finset.mem_union.mp hk with hk | hk
    · exact hs.ids hlive k (Or.inr (Or.inl (List.mem_toFinset.mp hk)))
    · exact hs.ids hlive k (Or.inr (Or.inr hk))
  -- `n` ids among the `n` ids of the configuration are all of them
  have hall : s.accountedShares = cfg.ids.toFinset := cfg.eq_ids_of_card hsub (hcn ▸ hn)
  intro k hk
  obtain ⟨hkC, hkq⟩ := List.mem_filter.mp hk
  have hmem : k ∈ s.accountedShares := by
    rw [hall, List.mem_toFinset]
    exact hs.ids hlive k (Or.inl hkC)
  refine ⟨?_, hs.keys k hkC⟩
  rcases Finset.mem_union.mp hmem with hk' | hk'
  · exact List.mem_toFinset.mp hk'
  · exact absurd hk' (by simpa using hkq)

end Checks

section Finalize

variable {p : ℕ} {G1 G2 : Type} [CommGroup G1] [CommGroup G2] {cfg : Config p}
  {s : CAState p G1 G2}

/-- With a share and both keys for every qualified id, and some qualified id,
`finalizeDKG` returns. -/
theorem Complete.finalize (hc : Complete s) (hne : s.qualifiedIds ≠ []) :
    ∃ ca, s.finalize = (ca, none) ∧ ca.published = s.cryptoCA.published := by
  have hval : ∀ {α : Type} (d : α) (m : AList fun _ : ℤ => α), (∀ k ∈ s.qualifiedIds, k ∈ m) →
      (s.qualifiedIds.map fun id => m.lookup id)
        = (s.qualifiedIds.map fun id => (m.lookup id).getD d).map some := by
    intro α d m hm
    refine map_lookup hm fun k v hv => ?_
    rw [hv]
    rfl
  unfold CAState.finalize
  rw [hval 0 _ fun k hk => (hc k hk).1, hval 1 _ fun k hk => (hc k hk).2.1,
    hval 1 _ fun k hk => (hc k hk).2.2,
    finalizeDKG_some _ (by simpa using hne) (by simpa using hne)]
  exact ⟨_, rfl, rfl⟩

/-- `checkSharePhaseComplete` throws in no sound state. -/
theorem Sound.checkShare (hs : Sound cfg s) : Safe cfg s s.checkSharePhaseComplete := by
  unfold CAState.checkSharePhaseComplete
  split
  · exact hs.safe
  next hst =>
    have hst' : s.state = .awaitingShares := not_not.mp hst
    split
    · exact hs.safe
    next hn =>
      split
      · exact hs.safe
      next ht =>
        have hp := hs.started (by rw [hst']; simp)
        obtain ⟨hready, hhash, hcn, hpos⟩ := hs.ready hp
        -- nothing is missing, so `finalizeDKG` meets no `null`
        have hcomp : Complete s := hs.complete hst' (Nat.le_of_not_lt hn)
        have hne : s.qualifiedIds ≠ [] := by
          intro h0
          rw [h0, List.length_nil] at ht
          omega
        obtain ⟨ca, hf, hpub⟩ := hcomp.finalize hne
        rw [hf]
        refine ⟨rfl, ⟨hs.self, fun _ => hp, fun _ => ⟨⟨hready.peers, ?_, ?_⟩, hhash, hcn, hpos⟩,
          hs.keys, ?_⟩, fun _ _ => hcomp⟩
        · exact hpub ▸ hready.published
        · exact fun h => absurd rfl h
        · exact fun h => absurd rfl h

/-- `checkRevealPhaseComplete` throws in no sound state. -/
theorem Sound.checkReveal (hs : Sound cfg s) : Safe cfg s s.checkRevealPhaseComplete := by
  unfold CAState.checkRevealPhaseComplete
  split
  · exact hs.safe
  next hst =>
    have hst' : s.state = .awaitingReveals := not_not.mp hst
    have hlive : s.state ≠ .done := by rw [hst']; simp
    split
    · exact hs.safe
    · have hp := hs.started (by rw [hst']; simp)
      obtain ⟨peers, hpeers⟩ := (hs.ready hp).1.peers
      obtain ⟨c, hc⟩ := (hs.ready hp).1.coefficients hlive
      have hshares : Sound cfg { s with state := .awaitingShares } := hs.enter hp hlive _
      dsimp only
      split
      · refine Safe.from (Safe.andThen (Sound.checkShare ?_) _) fun h => ?_
        · exact hshares.putShare (fun _ => hs.self) _
        · exact absurd h (by simp [CAState.putShare])
      next hnone => exact absurd hc (hnone peers c hpeers)

/-- `checkHashPhaseComplete` throws in no sound state. -/
theorem Sound.checkHash (hs : Sound cfg s) : Safe cfg s s.checkHashPhaseComplete := by
  unfold CAState.checkHashPhaseComplete
  split
  · exact hs.safe
  next hst =>
    have hst' : s.state = .awaitingHashes := not_not.mp hst
    have hlive : s.state ≠ .done := by rw [hst']; simp
    split
    · exact hs.safe
    next peers hpeers =>
      split
      · exact hs.safe
      · split
        · exact hs.safe
        · have hp : s.hostToPeerId.isSome = true := by rw [hpeers]; rfl
          obtain ⟨r, hr⟩ := (hs.ready hp).1.published
          dsimp only
          rw [hr]
          have hreveals : Sound cfg { s with state := .awaitingReveals } :=
            hs.enter hp hlive _
          refine Safe.from (Safe.andThen (Sound.checkReveal ?_) _) fun h => ?_
          · exact hreveals.putReveal (fun _ => hs.self) r
          · exact absurd h (by simp [CAState.putReveal])

omit [CommGroup G1] [CommGroup G2] in
/-- A complaint can be sent once the peers are known. -/
theorem Safe.broadcastComplaint {f : CAState p G1 G2 → Result p G1 G2} (hf : Safe cfg s (f s))
    (hp : s.hostToPeerId.isSome = true) (k : ℤ) (reason : String) :
    Safe cfg s ((s.broadcastComplaint k reason).andThen f) := by
  unfold CAState.broadcastComplaint
  obtain ⟨peers, hpeers⟩ := Option.isSome_iff_exists.mp hp
  rw [hpeers]
  exact hf.andThen _

end Finalize

section Handlers

variable {p : ℕ} {G1 G2 GT : Type} [CommGroup G1] [CommGroup G2] [CommGroup GT]
  [DecidableEq G1] {S : CryptimeleonSetup p G1 G2 GT} {cfg : Config p} {s : CAState p G1 G2}

/-- With the commitments computed, `startDKG` is its assignments and a check. -/
theorem react_startDKG {r : Reveal G1 G2}
    (hr : computeCommitments S (cfg.coeffs s.caID) = some r) :
    s.react S cfg .startDKG
      = (launch S s (cfg.peers s.caID) cfg.threshold cfg.n (cfg.coeffs s.caID) r).checkHashPhaseComplete := by
  show s.startDKG S (cfg.peers s.caID) cfg.threshold cfg.n (cfg.secret s.caID)
    (cfg.blinding s.caID) = _
  unfold CAState.startDKG
  dsimp only
  rw [show generatePrivatePolynomial cfg.threshold (cfg.secret s.caID) (cfg.blinding s.caID)
    = cfg.coeffs s.caID from rfl, hr]
  rfl

omit [DecidableEq G1] in
theorem Sound.launch (hs : Sound cfg s) (hnone : s.hostToPeerId.isNone = true)
    (ht : 0 < cfg.threshold) (r : Reveal G1 G2) :
    Sound cfg
      (launch S s (cfg.peers s.caID) cfg.threshold cfg.n (cfg.coeffs s.caID) r) := by
  have hearly : s.state = .awaitingHashes := by
    by_contra hne
    have hsome := hs.started hne
    rw [Option.isNone_iff_eq_none.mp hnone] at hsome
    exact absurd hsome (by simp)
  exact ⟨hs.self, fun h => absurd hearly h,
    fun _ => ⟨⟨⟨_, rfl⟩, ⟨_, rfl⟩, fun _ => ⟨_, rfl⟩⟩, rfl, rfl, ht⟩, hs.keys, hs.ids⟩

theorem Sound.startDKG (hs : Sound cfg s) (hnone : s.hostToPeerId.isNone = true)
    (ht : 0 < cfg.threshold) : Safe cfg s (s.react S cfg .startDKG) := by
  rw [react_startDKG (cfg.computeCommitments_coeffs S ht s.caID)]
  exact Safe.from (hs.launch hnone ht _).checkHash id

theorem Sound.outConnectionUp (hs : Sound cfg s) (target : Host) :
    Safe cfg s (s.react S cfg (.outConnectionUp target)) := by
  show Safe cfg s (s.onOutConnectionUp target)
  unfold CAState.onOutConnectionUp
  split
  · exact hs.safe
  next k hk =>
    obtain ⟨peers, hpeers, -⟩ := Option.bind_eq_some_iff.mp hk
    obtain ⟨hready, hhash, -⟩ := hs.ready (by rw [hpeers]; rfl)
    obtain ⟨r, hr⟩ := hready.published
    obtain ⟨h, hh⟩ := Option.isSome_iff_exists.mp hhash
    split
    · split
      · exact ⟨rfl, hs.connect k, fun hne hst => absurd hst hne⟩
      · exact ((hs.connect k).checkHash.andThen _).from id
    next hnone => exact absurd hr (hnone h r hh)

omit [DecidableEq G1] in
/-- A rejected reveal: the complaint goes out when the peers are known. -/
theorem Sound.rejectReveal (hs : Sound cfg s) {k : ℤ} (hk : s.state ≠ .done → k ∈ cfg.ids)
    (hp : s.hostToPeerId.isSome = true) (reason : String) :
    Safe cfg s (((s.disqualify k).broadcastComplaint k reason).andThen
      CAState.checkRevealPhaseComplete) :=
  ((hs.disqualify hk).checkReveal.broadcastComplaint hp k reason).from id

omit [DecidableEq G1] in
theorem Sound.handleReveal (hs : Sound cfg s) {k : ℤ} {r : Reveal G1 G2}
    (hk : s.state ≠ .done → k ∈ cfg.ids)
    (hp : s.receivedHashes.lookup k ≠ some (hashCommitments S r) →
      s.hostToPeerId.isSome = true) :
    Safe cfg s (s.handleReveal S k r) := by
  unfold CAState.handleReveal
  split
  next hnone => exact hs.rejectReveal hk (hp (by rw [hnone]; simp)) _
  next h hsome =>
    split
    next hne =>
      refine hs.rejectReveal hk (hp ?_) _
      rw [hsome]
      intro he
      exact hne (Option.some.inj he).symm
    · have hput := hs.putReveal hk r
      dsimp only
      split
      · exact hput.checkReveal.from id
      · exact hput.safe.from id

theorem Sound.handleShare (hs : Sound cfg s) {k : ℤ} {a b : ZMod p}
    (hok : k ∉ s.disqualifiedIds → ∀ C ∈ s.receivedCommitments.lookup k, C ≠ []
      ∧ (verifyShare S a b C s.caID = some false → s.hostToPeerId.isSome = true)) :
    Safe cfg s (s.handleShare S k a b) := by
  unfold CAState.handleShare
  split
  · exact hs.safe
  next hq =>
    split
    · exact hs.safe
    next C hC =>
      obtain ⟨hne, hp⟩ := hok hq C hC
      have hk : s.state ≠ .done → k ∈ cfg.ids := fun hst =>
        hs.ids hst k (Or.inl (AList.lookup_isSome.mp (by rw [hC]; rfl)))
      split
      next hv => exact absurd hv (verifyShare_ne_none S hne)
      next hv => exact ((hs.disqualify hk).checkShare.broadcastComplaint (hp hv) k _).from id
      · have hput := hs.putShare hk a
        dsimp only
        split
        · exact hput.checkShare.from id
        · exact hput.safe.from id

omit [DecidableEq G1] in
theorem Sound.handleComplaint (hs : Sound cfg s) {a : ℤ}
    (ha : s.state ≠ .done → a ∈ cfg.ids) : Safe cfg s (s.handleComplaint a) := by
  have hdis := hs.disqualify ha
  unfold CAState.handleComplaint
  dsimp only
  split
  · exact hdis.checkReveal.from id
  · exact hdis.checkShare.from id
  · exact hdis.safe.from id

/-- **A harmless event** makes no handler throw and keeps the invariant. -/
theorem Sound.react (hs : Sound cfg s) {e : CAEvent p G1 G2} (hen : s.Enabled e)
    (hok : Harmless S cfg s e) : Safe cfg s (s.react S cfg e) := by
  cases e with
  | startDKG => exact hs.startDKG hen hok
  | outConnectionUp target => exact hs.outConnectionUp target
  | receive m =>
    cases m with
    | commitmentHash k h =>
      show Safe cfg s (s.handleCommitmentHash k h)
      unfold CAState.handleCommitmentHash
      dsimp only
      split
      · exact (hs.putHash k h).checkHash.from id
      · exact (hs.putHash k h).safe.from id
    | reveal k r => exact hs.handleReveal hok.1 hok.2
    | share k a b => exact hs.handleShare hok
    | complaint k a reason => exact hs.handleComplaint hok

omit [CommGroup G1] [CommGroup G2] [DecidableEq G1] in
theorem sound_init {j : ℤ} (hj : j ∈ cfg.ids) :
    Sound cfg ({ caID := j } : CAState p G1 G2) where
  self := hj
  started h := absurd rfl h
  ready h := absurd h (by simp)
  keys k hk := absurd hk (AList.notMem_empty k)
  ids _ k hk := by
    rcases hk with hk | hk | hk
    · exact absurd hk (AList.notMem_empty k)
    · exact absurd hk (AList.notMem_empty k)
    · exact absurd hk (Finset.notMem_empty k)

/-- **No harmless message crashes a CA.** In every run of harmless steps every
handler completes, and a CA that finalizes has a share and both public keys for
every qualified id. -/
theorem handlers_never_throw {j : ℤ} (hj : j ∈ cfg.ids)
    (hrun : Run (CAState.next S cfg) (Harmless S cfg) { caID := j } s)
    {e : CAEvent p G1 G2} (hen : s.Enabled e) (hok : Harmless S cfg s e) :
    (s.react S cfg e).thrown = none
      ∧ (s.state ≠ .done → (s.react S cfg e).state.state = .done →
        Complete (s.react S cfg e).state) := by
  have hs : Sound cfg s := by
    refine hrun.invariant (sound_init hj) fun {t u e} ht hok hst => ?_
    unfold CAState.next at hst
    split at hst
    next hen =>
      rw [← Option.some.inj hst]
      exact (ht.react hen hok).sound
    · exact absurd hst (by simp)
  have hsafe := hs.react hen hok
  exact ⟨hsafe.thrown, hsafe.complete⟩

end Handlers

/-- CA 1 hears CA 2's hash, reveal and share, and finalizes. -/
theorem handlers_never_throw_two :
    ∃ s, Run (CAState.next (productSetup 5 2) (localConfig 5 2 2))
        (Harmless (productSetup 5 2) (localConfig 5 2 2)) { caID := 1 } s
      ∧ s.state = .awaitingShares
      ∧ (s.react (productSetup 5 2) (localConfig 5 2 2) (.receive (.share 2 0 3))).state.state
        = .done
      ∧ (s.react (productSetup 5 2) (localConfig 5 2 2) (.receive (.share 2 0 3))).thrown = none
      ∧ Complete
        (s.react (productSetup 5 2) (localConfig 5 2 2) (.receive (.share 2 0 3))).state := by
  have hex : ∃ s, Run (CAState.next (productSetup 5 2) (localConfig 5 2 2))
      (Harmless (productSetup 5 2) (localConfig 5 2 2)) { caID := 1 } s
        ∧ s.state = .awaitingShares
        ∧ (s.react (productSetup 5 2) (localConfig 5 2 2) (.receive (.share 2 0 3))).state.state
          = .done
        ∧ Harmless (productSetup 5 2) (localConfig 5 2 2) s (.receive (.share 2 0 3)) :=
    exists_run [.receive (.commitmentHash 2 ((localConfig 5 2 2).hashOf (productSetup 5 2) 2)),
      .startDKG, .outConnectionUp ⟨"127.0.0.1", portOf 2⟩, .receive (.reveal 2 ((localConfig 5 2 2).content (productSetup 5 2) 2))]
      (by decide)
  obtain ⟨s, hrun, hst, hdone, hok⟩ := hex
  have hen : s.Enabled (.receive (.share 2 0 3)) := trivial
  obtain ⟨hthrown, hcomp⟩ := handlers_never_throw (by decide) hrun hen hok
  exact ⟨s, hrun, hst, hdone, hthrown, hcomp (by rw [hst]; simp) hdone⟩

/-- **Three messages that crash CA 1 of two**: a reveal before `startDKG`; a
share of a CA that revealed the empty list; and complaints about CAs 7 and 8,
which stand in for the missing share of CA 2. -/
theorem peer_messages_throw :
    (CAState.react (productSetup 5 2) (localConfig 5 2 2) { caID := 1 }
        (.receive (.reveal 2 ((localConfig 5 2 2).content (productSetup 5 2) 2)))).thrown = some .nullPointer
      ∧ (∃ s, Run (CAState.next (productSetup 5 2) (localConfig 5 2 2)) (fun _ _ => True)
          { caID := 1 } s
        ∧ (s.react (productSetup 5 2) (localConfig 5 2 2) (.receive (.share 2 0 0))).thrown
          = some .indexOutOfBounds)
      ∧ ∃ s, Run (CAState.next (productSetup 5 2) (localConfig 5 2 2)) (fun _ _ => True)
          { caID := 1 } s
        ∧ (s.react (productSetup 5 2) (localConfig 5 2 2)
            (.receive (.complaint 2 8 "share failed verification"))).thrown = some .nullPointer
        ∧ ¬ Complete s := by
  refine ⟨by decide, ?_, ?_⟩
  · exact exists_run [.startDKG,
      .receive (.commitmentHash 2 (hashCommitments (productSetup 5 2) ⟨[], 1, 1⟩)),
      .receive (.reveal 2 ⟨[], 1, 1⟩)] (by decide)
  · exact exists_run [.startDKG, .outConnectionUp ⟨"127.0.0.1", portOf 2⟩,
      .receive (.commitmentHash 2 ((localConfig 5 2 2).hashOf (productSetup 5 2) 2)),
      .receive (.complaint 2 7 "share failed verification"),
      .receive (.reveal 2 ((localConfig 5 2 2).content (productSetup 5 2) 2))] (by decide)

end Dittor.Dkg

import Dittor.Dkg.Network

/-!
# The invariant of the CAs that follow the protocol

Fix a set `good` of ids. The invariant `NetInv` is about the CAs among them:
what a good CA has recorded under a good id is what that CA published
(`CaInv`), the channel from one good CA to another holds its hash, its reveal
and its share in this order (`Orderly`), and everything a good CA has sent has
been recorded or is still on its way. No good id is ever disqualified.

`NetInv` survives every step in which the messages of the other senders are
*admissible*: they do not speak in a good CA's name except to repeat it, and do
not accuse it (`Admissible`). Taking `good` to be everybody gives the honest
runs, where there are no other senders; taking it to be the CAs that follow the
protocol gives the runs with arbitrary peers. `Sh` is whatever is to be known
of the recorded shares.
-/

namespace Dittor.Dkg

open Dittor.Lib Dittor.Crypto

section Content

variable {p : ℕ} {G1 G2 GT : Type} [CommGroup G1] [CommGroup G2] [CommGroup GT]
  (S : CryptimeleonSetup p G1 G2 GT) (cfg : Config p)

/-- What CA `i` reveals. -/
def Config.content (i : ℤ) : Reveal G1 G2 :=
  (computeCommitments S (cfg.coeffs i)).getD ⟨[], 1, 1⟩

/-- The hash CA `i` publishes first. -/
def Config.hashOf (i : ℤ) : Text := hashCommitments S (cfg.content S i)

theorem Config.coeffs_length (i : ℤ) :
    (cfg.coeffs i).secretCoefficients.length = (cfg.coeffs i).blindingCoefficients.length := by
  simp [Config.coeffs, generatePrivatePolynomial]

theorem Config.computeCommitments_coeffs (ht : 0 < cfg.threshold) (i : ℤ) :
    computeCommitments S (cfg.coeffs i) = some (cfg.content S i) := by
  have hne : (cfg.coeffs i).secretCoefficients ≠ [] := by
    intro h0
    have hl := congrArg List.length h0
    simp [Config.coeffs, generatePrivatePolynomial] at hl
    omega
  obtain ⟨r, hr⟩ := computeCommitments_isSome S hne
  rw [Config.content, hr]
  rfl

/-- The three messages CA `i` owes CA `j`. -/
def helloMsg (i : ℤ) : DkgMsg p G1 G2 := .commitmentHash i (cfg.hashOf S i)

def revealMsg (i : ℤ) : DkgMsg p G1 G2 := .reveal i (cfg.content S i)

def shareMsg (i j : ℤ) : DkgMsg p G1 G2 := .share i (cfg.shareOf i j) (cfg.blindOf i j)

end Content

/-! ## Channels -/

section Orderly

variable {p : ℕ} {G1 G2 GT : Type} [CommGroup G1] [CommGroup G2] [CommGroup GT]
  (S : CryptimeleonSetup p G1 G2 GT) (cfg : Config p) (good : ℤ → Prop)

/-- The messages on the way from good CA `i` to CA `j` are its own, no reveal
overtakes the hash and no share the reveal, and no complaint names a good id.
`hashed` and `revealed` say what `j` has from `i` already. -/
def Orderly (i j : ℤ) : Prop → Prop → List (DkgMsg p G1 G2) → Prop
  | _, _, [] => True
  | _, revealed, .commitmentHash k h :: l =>
    (k = i ∧ h = cfg.hashOf S i) ∧ Orderly i j True revealed l
  | hashed, _, .reveal k r :: l =>
    (k = i ∧ r = cfg.content S i ∧ hashed) ∧ Orderly i j hashed True l
  | hashed, revealed, .share k a b :: l =>
    (k = i ∧ a = cfg.shareOf i j ∧ b = cfg.blindOf i j ∧ revealed)
      ∧ Orderly i j hashed revealed l
  | hashed, revealed, .complaint _ a _ :: l => ¬ good a ∧ Orderly i j hashed revealed l

variable {S cfg good} {i j : ℤ}

theorem Orderly.mono {l : List (DkgMsg p G1 G2)} :
    ∀ {hashed hashed' revealed revealed' : Prop}, (hashed → hashed') → (revealed → revealed') →
      Orderly S cfg good i j hashed revealed l → Orderly S cfg good i j hashed' revealed' l := by
  induction l with
  | nil => intros; trivial
  | cons m l ih =>
    intro hashed hashed' revealed revealed' hh hr h
    cases m with
    | commitmentHash k x => exact ⟨h.1, ih id hr h.2⟩
    | reveal k r => exact ⟨⟨h.1.1, h.1.2.1, hh h.1.2.2⟩, ih hh id h.2⟩
    | share k a b => exact ⟨⟨h.1.1, h.1.2.1, h.1.2.2.1, hr h.1.2.2.2⟩, ih hh hr h.2⟩
    | complaint k a reason => exact ⟨h.1, ih hh hr h.2⟩

omit [CommGroup G1] [CommGroup G2] in
/-- A different message at the head does not help a membership. -/
theorem or_mem_of_cons {P : Prop} {x m : DkgMsg p G1 G2} {l : List (DkgMsg p G1 G2)}
    (hne : x ≠ m) (h : P ∨ x ∈ m :: l) : P ∨ x ∈ l := by
  rcases h with h | h
  · exact Or.inl h
  · rcases List.mem_cons.mp h with he | hl
    · exact absurd he hne
    · exact Or.inr hl

/-- Appending: the tail may rely on what the front of the channel brings. -/
theorem Orderly.append {l' : List (DkgMsg p G1 G2)} :
    ∀ {l : List (DkgMsg p G1 G2)} {hashed revealed : Prop},
      Orderly S cfg good i j hashed revealed l →
      Orderly S cfg good i j (hashed ∨ helloMsg S cfg i ∈ l) (revealed ∨ revealMsg S cfg i ∈ l) l' →
      Orderly S cfg good i j hashed revealed (l ++ l') := by
  intro l
  induction l with
  | nil =>
    intro hashed revealed _ h'
    exact h'.mono (fun h => h.resolve_right (by simp)) fun h => h.resolve_right (by simp)
  | cons m l ih =>
    intro hashed revealed h h'
    cases m with
    | commitmentHash k x =>
      exact ⟨h.1, ih h.2 (h'.mono (fun _ => Or.inl trivial)
        (or_mem_of_cons (by simp [revealMsg])))⟩
    | reveal k r =>
      exact ⟨h.1, ih h.2 (h'.mono (or_mem_of_cons (by simp [helloMsg]))
        fun _ => Or.inl trivial)⟩
    | share k a b =>
      exact ⟨h.1, ih h.2 (h'.mono (or_mem_of_cons (by simp [helloMsg]))
        (or_mem_of_cons (by simp [revealMsg])))⟩
    | complaint k a reason =>
      exact ⟨h.1, ih h.2 (h'.mono (or_mem_of_cons (by simp [helloMsg]))
        (or_mem_of_cons (by simp [revealMsg])))⟩

/-- Complaints may be appended anywhere as long as they accuse no good id. -/
theorem orderly_complaints {l : List (DkgMsg p G1 G2)}
    (h : ∀ m ∈ l, ∃ k a reason, m = .complaint k a reason ∧ ¬ good a) (hashed revealed : Prop) :
    Orderly S cfg good i j hashed revealed l := by
  induction l with
  | nil => trivial
  | cons m l ih =>
    obtain ⟨k, a, reason, rfl, ha⟩ := h m (List.mem_cons_self ..)
    exact ⟨ha, ih fun m hm => h m (List.mem_cons_of_mem _ hm)⟩

end Orderly

/-! ## The state of one good CA -/

section CaInv

variable {p : ℕ} {G1 G2 GT : Type} [CommGroup G1] [CommGroup G2] [CommGroup GT]
  (S : CryptimeleonSetup p G1 G2 GT) (cfg : Config p) (good : ℤ → Prop)
  (Sh : ℤ → ℤ → ZMod p → Prop)

/-- What holds of the state of CA `j`; `started` is whether it has opened its
connections. -/
structure CaInv (j : ℤ) (started : Prop) (s : CAState p G1 G2) : Prop where
  caID : s.caID = j
  fresh : ¬ started → s.hostToPeerId = none ∧ s.state = .awaitingHashes
  peers : started → s.hostToPeerId = some (cfg.peers j)
  sizes : started → s.n = cfg.n ∧ s.threshold = cfg.threshold
  published : started → s.cryptoCA.published = some (cfg.content S j)
  myHash : started → s.myCommitmentHash = some (cfg.hashOf S j)
  coeffs : started → s.state ≠ .done → s.cryptoCA.coefficients = some (cfg.coeffs j)
  connected : ∀ k ∈ s.connectedPeerIds, k ∈ cfg.ids ∧ k ≠ j
  connectedAll : s.state ≠ .awaitingHashes →
    ∀ k ∈ cfg.ids, k ≠ j → k ∈ s.connectedPeerIds
  ownHash : started → j ∈ s.receivedHashes
  hashes : ∀ k h, good k → s.receivedHashes.lookup k = some h →
    k ∈ cfg.ids ∧ h = cfg.hashOf S k
  commitments : ∀ k C, good k → s.receivedCommitments.lookup k = some C →
    k ∈ cfg.ids ∧ C = (cfg.content S k).commitmentsG1
  pubKeyG1 : ∀ k P, good k → s.receivedPubKeyG1.lookup k = some P →
    P = (cfg.content S k).pubKeyG1
  pubKeyG2 : ∀ k P, good k → s.receivedPubKeyG2.lookup k = some P →
    P = (cfg.content S k).pubKeyG2
  keysG1 : ∀ k, k ∈ s.receivedPubKeyG1 ↔ k ∈ s.receivedCommitments
  keysG2 : ∀ k, k ∈ s.receivedPubKeyG2 ↔ k ∈ s.receivedCommitments
  ownReveal : s.state ≠ .awaitingHashes → j ∈ s.receivedCommitments
  shares : ∀ k v, good k → s.receivedSecretShares.lookup k = some v → Sh k j v
  shareRevealed : ∀ k ∈ s.receivedSecretShares, k ∈ s.receivedCommitments
  ownShare : s.state = .awaitingShares ∨ s.state = .done → j ∈ s.receivedSecretShares
  disqualified : ∀ k ∈ s.disqualifiedIds, ¬ good k

/-- A message good CA `j` may meet without harm to a good id: in a good id's
name it only repeats what that CA publishes, and it accuses no good id. -/
def Admissible [DecidableEq G1] (s : CAState p G1 G2) : DkgMsg p G1 G2 → Prop
  | .commitmentHash k h => good k → k ∈ cfg.ids ∧ h = cfg.hashOf S k
  | .reveal k r => good k → k ∈ s.receivedHashes ∧ r = cfg.content S k
  | .share k a b => good k → k ∈ s.receivedCommitments →
      verifyShare S a b (cfg.content S k).commitmentsG1 s.caID = some true ∧ Sh k s.caID a
  | .complaint _ a _ => ¬ good a

/-- Nothing recorded is forgotten. -/
structure Grows (s t : CAState p G1 G2) : Prop where
  hashes : ∀ k ∈ s.receivedHashes, k ∈ t.receivedHashes
  commitments : ∀ k ∈ s.receivedCommitments, k ∈ t.receivedCommitments
  shares : ∀ k ∈ s.receivedSecretShares, k ∈ t.receivedSecretShares
  connected : ∀ k ∈ s.connectedPeerIds, k ∈ t.connectedPeerIds

omit [CommGroup G1] [CommGroup G2] in
theorem Grows.of_eq {s t : CAState p G1 G2} (hh : t.receivedHashes = s.receivedHashes)
    (hc : t.receivedCommitments = s.receivedCommitments)
    (hs : t.receivedSecretShares = s.receivedSecretShares)
    (hp : t.connectedPeerIds = s.connectedPeerIds) : Grows s t :=
  ⟨fun _ h => hh ▸ h, fun _ h => hc ▸ h, fun _ h => hs ▸ h, fun _ h => hp ▸ h⟩

theorem advance_grows {s t : CAState p G1 G2} {l : List (Host × DkgMsg p G1 G2)}
    (h : Advance s l t) : Grows s t := by
  cases h with
  | toReveals => exact ⟨fun _ h => h, fun _ h => (AList.mem_insert _).mpr (Or.inr h),
      fun _ h => h, fun _ h => h⟩
  | toRevealsNull => exact .of_eq rfl rfl rfl rfl
  | toShares => exact ⟨fun _ h => h, fun _ h => h,
      fun _ h => (AList.mem_insert _).mpr (Or.inr h), fun _ h => h⟩
  | toSharesNull => exact .of_eq rfl rfl rfl rfl
  | finalize => exact .of_eq rfl rfl rfl rfl
  | finalizeThrows => exact .of_eq rfl rfl rfl rfl

theorem reacts_grows [DecidableEq G1] {s t : CAState p G1 G2} {m : DkgMsg p G1 G2}
    {l : List (Host × DkgMsg p G1 G2)} (h : Reacts S s m l t) : Grows s t := by
  cases h with
  | hash => exact ⟨fun _ h => (AList.mem_insert _).mpr (Or.inr h), fun _ h => h,
      fun _ h => h, fun _ h => h⟩
  | revealAccepted => exact ⟨fun _ h => h, fun _ h => (AList.mem_insert _).mpr (Or.inr h),
      fun _ h => h, fun _ h => h⟩
  | revealRejected => exact .of_eq rfl rfl rfl rfl
  | shareIgnored => exact .of_eq rfl rfl rfl rfl
  | shareAccepted => exact ⟨fun _ h => h, fun _ h => h,
      fun _ h => (AList.mem_insert _).mpr (Or.inr h), fun _ h => h⟩
  | shareRejected => exact .of_eq rfl rfl rfl rfl
  | complaint => exact .of_eq rfl rfl rfl rfl

/-- A lookup after one `put`: the new value at its own key, the old one elsewhere. -/
theorem lookup_insert_cases {α : Type} {m : AList (fun _ : ℤ => α)} {k k' : ℤ} {v w : α}
    (h : (m.insert k v).lookup k' = some w) : (k' = k ∧ w = v) ∨ m.lookup k' = some w := by
  by_cases hk : k' = k
  · subst hk
    rw [AList.lookup_insert] at h
    exact Or.inl ⟨rfl, (Option.some.inj h).symm⟩
  · rw [AList.lookup_insert_ne hk] at h
    exact Or.inr h

theorem lookup_of_mem {α : Type} {m : AList (fun _ : ℤ => α)} {k : ℤ} (h : k ∈ m) :
    ∃ v, m.lookup k = some v :=
  Option.isSome_iff_exists.mp (AList.lookup_isSome.mpr h)

theorem mem_of_lookup {α : Type} {m : AList (fun _ : ℤ => α)} {k : ℤ} {v : α}
    (h : m.lookup k = some v) : k ∈ m :=
  AList.lookup_isSome.mp (by rw [h]; rfl)

/-- The values under some keys, when all are there and it is known what they are. -/
theorem map_lookup {α : Type} {m : AList (fun _ : ℤ => α)} {l : List ℤ} {f : ℤ → α}
    (hmem : ∀ k ∈ l, k ∈ m) (hval : ∀ k v, m.lookup k = some v → v = f k) :
    l.map (fun k => m.lookup k) = (l.map f).map some := by
  rw [List.map_map]
  refine List.map_congr_left fun k hk => ?_
  obtain ⟨v, hv⟩ := lookup_of_mem (hmem k hk)
  rw [hv, hval k v hv]
  rfl

theorem map_lookup_getD {α : Type} {m : AList (fun _ : ℤ => α)} {l : List ℤ} {f : ℤ → α}
    (d : α) (hmem : ∀ k ∈ l, k ∈ m) (hval : ∀ k v, m.lookup k = some v → v = f k) :
    (l.map fun k => (m.lookup k).getD d) = l.map f := by
  refine List.map_congr_left fun k hk => ?_
  obtain ⟨v, hv⟩ := lookup_of_mem (hmem k hk)
  rw [hv]
  exact hval k v hv

variable {S cfg good Sh} {j : ℤ} {started : Prop} {s t : CAState p G1 G2}
  {l : List (Host × DkgMsg p G1 G2)}

/-- Recording a reveal that is a good CA's own, if it is in a good id's name. -/
theorem CaInv.putReveal (hI : CaInv S cfg good Sh j started s) {k : ℤ} {r : Reveal G1 G2}
    (hk : good k → k ∈ cfg.ids ∧ r = cfg.content S k) :
    CaInv S cfg good Sh j started (s.putReveal k r) where
  __ := hI
  commitments k' C hg hC := by
    rcases lookup_insert_cases hC with ⟨rfl, rfl⟩ | hC
    · exact ⟨(hk hg).1, by rw [(hk hg).2]⟩
    · exact hI.commitments k' C hg hC
  pubKeyG1 k' P hg hP := by
    rcases lookup_insert_cases hP with ⟨rfl, rfl⟩ | hP
    · rw [(hk hg).2]
    · exact hI.pubKeyG1 k' P hg hP
  pubKeyG2 k' P hg hP := by
    rcases lookup_insert_cases hP with ⟨rfl, rfl⟩ | hP
    · rw [(hk hg).2]
    · exact hI.pubKeyG2 k' P hg hP
  keysG1 k' := (AList.mem_insert _).trans
    ((or_congr Iff.rfl (hI.keysG1 k')).trans (AList.mem_insert _).symm)
  keysG2 k' := (AList.mem_insert _).trans
    ((or_congr Iff.rfl (hI.keysG2 k')).trans (AList.mem_insert _).symm)
  ownReveal hst := (AList.mem_insert _).mpr (Or.inr (hI.ownReveal hst))
  shareRevealed k' hk' := (AList.mem_insert _).mpr (Or.inr (hI.shareRevealed k' hk'))

/-- Recording a share of a CA whose reveal is recorded. -/
theorem CaInv.putShare (hI : CaInv S cfg good Sh j started s) {k : ℤ} {a : ZMod p}
    (hk : good k → Sh k j a) (hC : k ∈ s.receivedCommitments) :
    CaInv S cfg good Sh j started (s.putShare k a) where
  __ := hI
  shares k' v hg hv := by
    rcases lookup_insert_cases hv with ⟨rfl, rfl⟩ | hv
    · exact hk hg
    · exact hI.shares k' v hg hv
  shareRevealed k' hk' := by
    rcases (AList.mem_insert _).mp hk' with rfl | hk'
    · exact hC
    · exact hI.shareRevealed k' hk'
  ownShare hst := (AList.mem_insert _).mpr (Or.inr (hI.ownShare hst))

theorem CaInv.disqualify (hI : CaInv S cfg good Sh j started s) {k : ℤ} (hk : ¬ good k) :
    CaInv S cfg good Sh j started (s.disqualify k) where
  __ := hI
  disqualified k' hk' := by
    rcases Finset.mem_insert.mp hk' with rfl | hk'
    · exact hk
    · exact hI.disqualified k' hk'

/-- **A reaction to an admissible message keeps the invariant.** -/
theorem CaInv.react [DecidableEq G1] (hI : CaInv S cfg good Sh j started s)
    {m : DkgMsg p G1 G2} (hm : Admissible S cfg good Sh s m) (hR : Reacts S s m l t) :
    CaInv S cfg good Sh j started t := by
  cases hR with
  | hash k h =>
    exact
      { hI with
        ownHash := fun hs => (AList.mem_insert _).mpr (Or.inr (hI.ownHash hs))
        hashes := by
          intro k' h' hg hl
          rcases lookup_insert_cases hl with ⟨rfl, rfl⟩ | hl
          · exact hm hg
          · exact hI.hashes k' h' hg hl }
  | revealAccepted hh =>
    refine hI.putReveal fun hg => ?_
    obtain ⟨hmem, hr⟩ := hm hg
    exact ⟨(hI.hashes _ _ hg hh).1, hr⟩
  | @revealRejected k r _ hh =>
    -- a reveal of a good CA matches its hash, so it is not rejected
    refine hI.disqualify fun hg => hh ?_
    obtain ⟨hmem, hr⟩ := hm hg
    obtain ⟨h, hl⟩ := lookup_of_mem hmem
    rw [hl, (hI.hashes k h hg hl).2, hr, Config.hashOf]
  | shareIgnored => exact hI
  | shareAccepted hq hC hv =>
    refine hI.putShare (fun hg => ?_) (mem_of_lookup hC)
    rw [← hI.caID]
    exact (hm hg (mem_of_lookup hC)).2
  | @shareRejected k a b C _ hq hC hv =>
    refine hI.disqualify fun hg => ?_
    -- nor is a share of a good CA
    have hok := (hm hg (mem_of_lookup hC)).1
    rw [← (hI.commitments k C hg hC).2, hv] at hok
    exact absurd hok (by simp)
  | complaint => exact hI.disqualify hm

/-- `finalizeDKG` keeps the published values, and the polynomials if it throws. -/
theorem finalize_frame (s : CAState p G1 G2) :
    s.finalize.1.published = s.cryptoCA.published
      ∧ (s.finalize.2 ≠ none → s.finalize.1.coefficients = s.cryptoCA.coefficients) := by
  unfold CAState.finalize CA.finalizeDKG
  split
  · exact ⟨rfl, fun _ => rfl⟩
  · split
    · exact ⟨rfl, fun _ => rfl⟩
    · split
      · exact ⟨rfl, fun _ => rfl⟩
      · exact ⟨rfl, fun h => absurd rfl h⟩

/-- `finalizeDKG` that returns drops the polynomials. -/
theorem finalize_ok_frame {s : CAState p G1 G2} {ca : CA p G1 G2} (h : s.finalize = (ca, none)) :
    ca.published = s.cryptoCA.published ∧ ca.coefficients = none := by
  have hpub := (finalize_frame s).1
  rw [h] at hpub
  refine ⟨hpub, ?_⟩
  unfold CAState.finalize CA.finalizeDKG at h
  split at h
  · exact absurd (Prod.mk.inj h).2 (by simp)
  · split at h
    · exact absurd (Prod.mk.inj h).2 (by simp)
    · split at h
      · exact absurd (Prod.mk.inj h).2 (by simp)
      · rw [← (Prod.mk.inj h).1]

/-- With as many connections as peers, every peer is connected. -/
theorem CaInv.allConnected (hI : CaInv S cfg good Sh j started s) (hj : j ∈ cfg.ids)
    (hc : (cfg.peers j).length ≤ s.connectedPeerIds.card) :
    ∀ k ∈ cfg.ids, k ≠ j → k ∈ s.connectedPeerIds := by
  have hsub : s.connectedPeerIds ⊆ cfg.ids.toFinset.erase j := by
    intro k hk
    obtain ⟨hki, hkj⟩ := hI.connected k hk
    exact Finset.mem_erase.mpr ⟨hkj, List.mem_toFinset.mpr hki⟩
  have hcard : (cfg.ids.toFinset.erase j).card ≤ s.connectedPeerIds.card := by
    rw [Finset.card_erase_of_mem (List.mem_toFinset.mpr hj), cfg.ids_card]
    have := cfg.peers_length hj
    omega
  have heq := Finset.eq_of_subset_of_card_le hsub hcard
  intro k hk hkj
  rw [heq]
  exact Finset.mem_erase.mpr ⟨hkj, List.mem_toFinset.mpr hk⟩

/-- The phase moves only in a started CA. -/
theorem CaInv.started_of_state (hI : CaInv S cfg good Sh j started s)
    (hst : s.state ≠ .awaitingHashes) : started := by
  by_contra h
  exact hst (hI.fresh h).2

theorem CaInv.started_of_peers (hI : CaInv S cfg good Sh j started s)
    {peers : List (Host × ℤ)} (hp : s.hostToPeerId = some peers) : started := by
  by_contra h
  rw [(hI.fresh h).1] at hp
  exact absurd hp (by simp)

/-- **A completed phase keeps the invariant.** -/
theorem CaInv.advance (hI : CaInv S cfg good Sh j started s) (hj : j ∈ cfg.ids)
    (hSh : Sh j j (cfg.shareOf j j)) (hA : Advance s l t) :
    CaInv S cfg good Sh j started t := by
  obtain rfl := hI.caID
  cases hA with
  | @toReveals peers r hst hp hn hc hr =>
    have hs := hI.started_of_peers hp
    -- what it reveals is what `startDKG` computed
    have hpe : peers = cfg.peers s.caID := Option.some.inj (hp.symm.trans (hI.peers hs))
    have hre : r = cfg.content S s.caID := Option.some.inj (hr.symm.trans (hI.published hs))
    subst hpe; subst hre
    have hput := hI.putReveal (r := cfg.content S s.caID) fun _ => ⟨hj, rfl⟩
    exact
      { hput with
        fresh := fun h => absurd hs h
        coeffs := fun _ _ => hI.coeffs hs (by rw [hst]; simp)
        connectedAll := fun _ => hI.allConnected hj hc
        ownReveal := fun _ => (AList.mem_insert _).mpr (Or.inl rfl)
        ownShare := fun h => by simp [CAState.putReveal] at h }
  | @toRevealsNull peers hst hp hr =>
    have hs := hI.started_of_peers hp
    -- a CA that has started has published
    rw [hI.published hs] at hr
    exact absurd hr (by simp)
  | @toShares peers c hst hn hp hc =>
    have hs := hI.started_of_peers hp
    have hce : c = cfg.coeffs s.caID :=
      Option.some.inj (hc.symm.trans (hI.coeffs hs (by rw [hst]; simp)))
    subst hce
    have hput := hI.putShare (a := cfg.shareOf s.caID s.caID) (fun _ => hSh)
      (hI.ownReveal (by rw [hst]; simp))
    exact
      { hput with
        fresh := fun h => absurd hs h
        coeffs := fun _ _ => hI.coeffs hs (by rw [hst]; simp)
        connectedAll := fun _ => hI.connectedAll (by rw [hst]; simp)
        ownReveal := fun _ => hI.ownReveal (by rw [hst]; simp)
        ownShare := fun _ => (AList.mem_insert _).mpr (Or.inl rfl) }
  | toSharesNull hst hnull =>
    have hs := hI.started_of_state (by rw [hst]; simp)
    rcases hnull with h | h
    · rw [hI.peers hs] at h
      exact absurd h (by simp)
    · rw [hI.coeffs hs (by rw [hst]; simp)] at h
      exact absurd h (by simp)
  | @finalize ca hst hn ht hf =>
    have hs := hI.started_of_state (by rw [hst]; simp)
    -- `finalizeDKG` clears the coefficients and keeps what was published
    have hpub := (finalize_frame s).1
    rw [hf] at hpub
    exact
      { hI with
        fresh := fun h => absurd hs h
        published := fun _ => hpub.trans (hI.published hs)
        coeffs := fun _ h => absurd rfl h
        connectedAll := fun _ => hI.connectedAll (by rw [hst]; simp)
        ownReveal := fun _ => hI.ownReveal (by rw [hst]; simp)
        ownShare := fun _ => hI.ownShare (Or.inl hst) }
  | @finalizeThrows ca e hst hf =>
    have hs := hI.started_of_state (by rw [hst]; simp)
    obtain ⟨hpub, hco⟩ := finalize_frame s
    rw [hf] at hpub hco
    exact
      { hI with
        published := fun _ => hpub.trans (hI.published hs)
        coeffs := fun _ _ => (hco (by simp)).trans (hI.coeffs hs (by rw [hst]; simp)) }

end CaInv

end Dittor.Dkg

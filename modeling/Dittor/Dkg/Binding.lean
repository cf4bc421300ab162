import Dittor.Dkg.Invariant

/-!
# Commit, then reveal

A CA publishes the hash of its contribution before it sees anybody else's, so
that nobody can choose a contribution that depends on the others'. `CA.java`
says so where the hash is made: the second publication comes "depois de todos
os hashes serem divulgados". The receiving side does not enforce it.
`handleCommitmentHash` overwrites the recorded hash in every phase, also after
the own reveal has gone out and after a reveal has been accepted, and
`handleReveal` then accepts a second reveal (`late_hash_accepted`).

`Binds` is the missing check: a hash is new only while the hashes are being
collected and nothing has been accepted from its sender, and a second reveal
under the same hash is the first one again. Messages in the CA's own name are no
exception: nothing checks who sent them, and they repeat what it has published.
In every run whose messages to CA `j` meet it, all hashes are fixed when `j`'s
own reveal goes out, and from its acceptance on a reveal is fixed too
(`Frozen`). The step in which `j` finishes then adds up the recorded shares of
the ids that are qualified in that moment. Each of them came, with its blinding
value, in a share message that `j` accepted or from `j`'s own polynomials
(`ShareDealt`), and this pair opens the recorded commitments whose public keys `j`
multiplies (`KeysBound`). The pair has to be the one that was dealt: some
blinding value opens a Pedersen commitment for any share.
-/

namespace Dittor.Dkg

open Dittor.Lib Dittor.Crypto

section Definitions

variable {p : ℕ} {G1 G2 GT : Type} [CommGroup G1] [CommGroup G2] [CommGroup GT]
  [DecidableEq G1] (S : CryptimeleonSetup p G1 G2 GT)

/-- The CA has recorded the reveal `r` of CA `i`. -/
def Recorded (s : CAState p G1 G2) (i : ℤ) (r : Reveal G1 G2) : Prop :=
  s.receivedCommitments.lookup i = some r.commitmentsG1
    ∧ s.receivedPubKeyG1.lookup i = some r.pubKeyG1
    ∧ s.receivedPubKeyG2.lookup i = some r.pubKeyG2

instance [DecidableEq G2] (s : CAState p G1 G2) (i : ℤ) (r : Reveal G1 G2) :
    Decidable (Recorded s i r) :=
  inferInstanceAs (Decidable (_ ∧ _ ∧ _))

/-- What the source does not check of a message: a hash repeats the recorded one, or
comes while hashes are collected and no reveal under its id is accepted (under the CA's
own id: before the CA has made its commitments); a reveal that matches the recorded hash
is equal to the accepted one, and under the CA's own id to its own. -/
def Binds (s : CAState p G1 G2) : DkgMsg p G1 G2 → Prop
  | .commitmentHash i h => s.receivedHashes.lookup i = some h
      ∨ (s.state = .awaitingHashes ∧ i ∉ s.receivedCommitments
        ∧ (i = s.caID → s.cryptoCA.published = none))
  | .reveal i r => s.receivedHashes.lookup i = some (hashCommitments S r) →
      (i ∈ s.receivedCommitments → Recorded s i r) ∧ (i = s.caID → s.cryptoCA.published = some r)
  | _ => True

/-- The messages delivered to CA `j` bind. -/
def BindsAt (cfg : Config p) (j : ℤ) (net : Net p G1 G2) : Event p G1 G2 → Prop
  | .deliver i k => k = j → ∀ m ∈ (net.chan i (cfg.host j)).head?, Binds S (net.ca j) m
  | _ => True

instance [DecidableEq G2] (s : CAState p G1 G2) (m : DkgMsg p G1 G2) :
    Decidable (Binds S s m) :=
  match m with
  | .commitmentHash _ _ => inferInstanceAs (Decidable (_ ∨ _))
  | .reveal _ _ => inferInstanceAs (Decidable (_ → _))
  | .share _ _ _ => isTrue trivial
  | .complaint _ _ _ => isTrue trivial

instance [DecidableEq G2] (cfg : Config p) (j : ℤ) (net : Net p G1 G2) (e : Event p G1 G2) :
    Decidable (BindsAt S cfg j net e) :=
  match e with
  | .startDKG _ => isTrue trivial
  | .connectionUp _ _ => isTrue trivial
  | .inject _ _ _ => isTrue trivial
  | .deliver i k => inferInstanceAs (Decidable (k = j →
      ∀ m ∈ (net.chan i (cfg.host j)).head?, Binds S (net.ca j) m))

/-- From `s` to `t` a CA has not touched what it may no longer touch: the hashes
once its own reveal is out (the hash phase is over), a hash and its reveal once
that reveal is accepted, and the keys once they are made. -/
structure Frozen (s t : CAState p G1 G2) : Prop where
  out : s.state ≠ .awaitingHashes → t.state ≠ .awaitingHashes
  hashes : s.state ≠ .awaitingHashes →
    ∀ i, t.receivedHashes.lookup i = s.receivedHashes.lookup i
  hash : ∀ i ∈ s.receivedCommitments, t.receivedHashes.lookup i = s.receivedHashes.lookup i
  reveal : ∀ i r, Recorded s i r → Recorded t i r
  finished : s.state = .done → t.state = .done ∧ t.cryptoCA = s.cryptoCA

/-- The share `a` of CA `i` and its blinding value `b` were dealt to CA `j` on the way to
`net`: they came in a message of a CA that was not disqualified and whose reveal `r` was
recorded then, or they are values of `j`'s own polynomials. -/
def ShareDealt (cfg : Config p) (follows : ℤ → Bool) (j : ℤ) (net : Net p G1 G2)
    (i : ℤ) (a b : ZMod p) (r : Reveal G1 G2) : Prop :=
  (i = j ∧ a = cfg.shareOf j j ∧ b = cfg.blindOf j j)
    ∨ ∃ (before after : Net p G1 G2) (k : ℤ),
      Run (Net.step S cfg follows) (BindsAt S cfg j) Net.init before
        ∧ (before.chan k (cfg.host j)).head? = some (.share i a b)
        ∧ (i ∉ (before.ca j).disqualifiedIds ∧ Recorded (before.ca j) i r)
        ∧ before.step S cfg follows (.deliver k j) = some after
        ∧ Run (Net.step S cfg follows) (BindsAt S cfg j) after net

/-- The keys that `s` has, when `fin` is the state in which CA `j` finished: the sum of
the shares recorded for the ids qualified then, and the products of the public keys
recorded for them, which `s` still has. Each of the shares verifies, with the blinding
value it was dealt with, against the commitments recorded with the public keys. -/
def KeysBound (dealt : ℤ → ZMod p → ZMod p → Reveal G1 G2 → Prop) (j : ℤ)
    (fin s : CAState p G1 G2) : Prop :=
  ∃ (a b : ℤ → ZMod p) (R : ℤ → Reveal G1 G2),
    (∀ q ∈ fin.qualifiedIds, fin.receivedSecretShares.lookup q = some (a q)
      ∧ dealt q (a q) (b q) (R q)
      ∧ (Recorded fin q (R q) ∧ Recorded s q (R q))
      ∧ verifyShare S (a q) (b q) (R q).commitmentsG1 j = some true)
    ∧ s.cryptoCA.secretKeyShare = some (fin.qualifiedIds.map a).sum
    ∧ s.cryptoCA.masterPubKeyG1 = some (fin.qualifiedIds.map fun q => (R q).pubKeyG1).prod
    ∧ s.cryptoCA.masterPubKeyG2 = some (fin.qualifiedIds.map fun q => (R q).pubKeyG2).prod

/-- CA `j` has not published before `startDKG`, and then publishes, under its own id too,
the commitments to the polynomials it deals from. -/
structure OwnContent (dealt : ℤ → ZMod p → ZMod p → Reveal G1 G2 → Prop) (j : ℤ)
    (s : CAState p G1 G2) : Prop where
  fresh : s.hostToPeerId = none → s.state = .awaitingHashes
    ∧ s.cryptoCA.coefficients = none ∧ s.cryptoCA.published = none
  coefficients : ∀ c, s.cryptoCA.coefficients = some c →
    computeCommitments S c = s.cryptoCA.published
      ∧ c.secretCoefficients.length = c.blindingCoefficients.length
      ∧ ∀ r, dealt j (evaluatePolynomial c.secretCoefficients j)
        (evaluatePolynomial c.blindingCoefficients j) r
  hash : ∀ r, s.cryptoCA.published = some r →
    s.receivedHashes.lookup j = some (hashCommitments S r)
  recorded : j ∈ s.receivedCommitments → ∃ r, s.cryptoCA.published = some r ∧ Recorded s j r
  out : s.state ≠ .awaitingHashes → ∀ r, s.cryptoCA.published = some r → Recorded s j r

/-- What the recorded values satisfy, where `dealt` are the pairs that came up to now. A CA
that could not make its commitments has a share of its own without them, but it is not
qualified. -/
structure BindInv (dealt : ℤ → ZMod p → ZMod p → Reveal G1 G2 → Prop) (j : ℤ)
    (s : CAState p G1 G2) : Prop where
  caID : s.caID = j
  own : OwnContent S dealt j s
  opened : ∀ i ∈ s.receivedCommitments,
    ∃ r, Recorded s i r ∧ s.receivedHashes.lookup i = some (hashCommitments S r)
  shares : ∀ i a, s.receivedSecretShares.lookup i = some a →
    (i = j ∧ s.state ≠ .awaitingHashes ∧ s.cryptoCA.published = none)
      ∨ ∃ r, Recorded s i r ∧ ∃ b, dealt i a b r ∧ verifyShare S a b r.commitmentsG1 j = some true

end Definitions

section Frozen

variable {p : ℕ} {G1 G2 : Type} {s t u : CAState p G1 G2} {i : ℤ} {r r' : Reveal G1 G2}

theorem Recorded.mem (h : Recorded s i r) : i ∈ s.receivedCommitments := mem_of_lookup h.1

theorem Recorded.unique (h : Recorded s i r) (h' : Recorded s i r') : r = r' := by
  obtain ⟨C, P, Q⟩ := r
  obtain ⟨C', P', Q'⟩ := r'
  obtain ⟨h1, h2, h3⟩ := h
  obtain ⟨h1', h2', h3'⟩ := h'
  rw [h1, Option.some.injEq] at h1'
  rw [h2, Option.some.injEq] at h2'
  rw [h3, Option.some.injEq] at h3'
  rw [show C = C' from h1', show P = P' from h2', show Q = Q' from h3']

/-- A recorded reveal replaces the one of its own id only. -/
theorem recorded_putReveal_self : Recorded (s.putReveal i r) i r :=
  ⟨AList.lookup_insert _, AList.lookup_insert _, AList.lookup_insert _⟩

theorem recorded_putReveal_ne {k : ℤ} (hk : i ≠ k) (h : Recorded s i r) :
    Recorded (s.putReveal k r') i r := by
  refine ⟨?_, ?_, ?_⟩
  · rw [← h.1]
    exact AList.lookup_insert_ne hk
  · rw [← h.2.1]
    exact AList.lookup_insert_ne hk
  · rw [← h.2.2]
    exact AList.lookup_insert_ne hk

theorem Frozen.refl (s : CAState p G1 G2) : Frozen s s :=
  ⟨id, fun _ _ => rfl, fun _ _ => rfl, fun _ _ h => h, fun h => ⟨h, rfl⟩⟩

/-- No hash changes, and a CA that has not finished moves on. -/
theorem Frozen.of_phase (hst : s.state ≠ .awaitingHashes → t.state ≠ .awaitingHashes)
    (hdone : s.state ≠ .done) (hh : t.receivedHashes = s.receivedHashes)
    (hr : ∀ i r, Recorded s i r → Recorded t i r) : Frozen s t :=
  ⟨hst, fun _ i => by rw [hh], fun i _ => by rw [hh], hr, fun h => absurd h hdone⟩

/-- No hash changes, in the same phase. -/
theorem Frozen.of_eq (hst : t.state = s.state) (hca : t.cryptoCA = s.cryptoCA)
    (hh : t.receivedHashes = s.receivedHashes)
    (hr : ∀ i r, Recorded s i r → Recorded t i r) : Frozen s t :=
  ⟨fun h => hst ▸ h, fun _ i => by rw [hh], fun i _ => by rw [hh], hr,
    fun h => ⟨hst.trans h, hca⟩⟩

end Frozen

section Invariant

variable {p : ℕ} {G1 G2 GT : Type} [CommGroup G1] [CommGroup G2] [CommGroup GT]
  [DecidableEq G1] {S : CryptimeleonSetup p G1 G2 GT}
  {dealt dealt' : ℤ → ZMod p → ZMod p → Reveal G1 G2 → Prop} {j : ℤ}
  {s t u : CAState p G1 G2} {l : List (Host × DkgMsg p G1 G2)}

/-- More may have been dealt. -/
theorem BindInv.mono (hI : BindInv S dealt j s)
    (h : ∀ i a b r, dealt i a b r → dealt' i a b r) : BindInv S dealt' j s := by
  refine { hI with own := { hI.own with coefficients := ?_ }, shares := ?_ }
  · intro c hc
    obtain ⟨hcomm, hlen, hown⟩ := hI.own.coefficients c hc
    exact ⟨hcomm, hlen, fun r => h _ _ _ _ (hown r)⟩
  · intro i a ha
    rcases hI.shares i a ha with hnone | ⟨r, hr, b, hb, hv⟩
    · exact .inl hnone
    · exact .inr ⟨r, hr, b, h _ _ _ _ hb, hv⟩

/-- Chains of moves: the reveal stays recorded, so the middle hash counts. -/
theorem Frozen.trans (h : Frozen s t) (h' : Frozen t u) (hI : BindInv S dealt j s) :
    Frozen s u where
  out hst := h'.out (h.out hst)
  hashes hst i := (h'.hashes (h.out hst) i).trans (h.hashes hst i)
  hash i hmem := by
    obtain ⟨r, hr, -⟩ := hI.opened i hmem
    exact (h'.hash i (h.reveal i r hr).mem).trans (h.hash i hmem)
  reveal i r hr := h'.reveal i r (h.reveal i r hr)
  finished hst := by
    obtain ⟨hdone, hca⟩ := h.finished hst
    obtain ⟨hdone', hca'⟩ := h'.finished hdone
    exact ⟨hdone', hca'.trans hca⟩

/-- What is frozen keeps the keys bound. -/
theorem KeysBound.frozen {fin : CAState p G1 G2} (h : KeysBound S dealt j fin s)
    (hst : s.state = .done) (hf : Frozen s t) : KeysBound S dealt j fin t := by
  obtain ⟨a, b, R, hq, h1, h2, h3⟩ := h
  obtain ⟨-, hca⟩ := hf.finished hst
  refine ⟨a, b, R, ?_, by rw [hca, h1], by rw [hca, h2], by rw [hca, h3]⟩
  intro q hmem
  obtain ⟨ha, hdealt, ⟨hfin, hs⟩, hv⟩ := hq q hmem
  exact ⟨ha, hdealt, ⟨hfin, hf.reveal q _ hs⟩, hv⟩

/-- A verified share stays one where what is recorded and what is published stays. -/
theorem BindInv.shares_of (hI : BindInv S dealt j s)
    (hsh : t.receivedSecretShares = s.receivedSecretShares)
    (hrec : ∀ i r, Recorded s i r → Recorded t i r)
    (hst : s.state ≠ .awaitingHashes → t.state ≠ .awaitingHashes)
    (hpub : t.cryptoCA.published = s.cryptoCA.published) :
    ∀ i a, t.receivedSecretShares.lookup i = some a →
      (i = j ∧ t.state ≠ .awaitingHashes ∧ t.cryptoCA.published = none)
        ∨ ∃ r, Recorded t i r ∧ ∃ b,
          dealt i a b r ∧ verifyShare S a b r.commitmentsG1 j = some true := by
  intro i a ha
  rw [hsh] at ha
  rcases hI.shares i a ha with ⟨hi, hne, hnone⟩ | ⟨r, hr, hv⟩
  · exact .inl ⟨hi, hst hne, hpub.trans hnone⟩
  · exact .inr ⟨r, hrec i r hr, hv⟩

/-- A reaction that records nothing. -/
theorem BindInv.quiet (hI : BindInv S dealt j s) (hid : t.caID = s.caID)
    (hpeers : t.hostToPeerId = s.hostToPeerId) (hst : t.state = s.state)
    (hca : t.cryptoCA = s.cryptoCA) (hh : t.receivedHashes = s.receivedHashes)
    (hC : t.receivedCommitments = s.receivedCommitments)
    (h1 : t.receivedPubKeyG1 = s.receivedPubKeyG1) (h2 : t.receivedPubKeyG2 = s.receivedPubKeyG2)
    (hsh : t.receivedSecretShares = s.receivedSecretShares) :
    BindInv S dealt j t ∧ Frozen s t := by
  have hrec : ∀ i r, Recorded t i r ↔ Recorded s i r := by
    intro i r
    unfold Recorded
    rw [hC, h1, h2]
  refine ⟨⟨hid.trans hI.caID, ⟨?_, ?_, ?_, ?_, ?_⟩, ?_, ?_⟩,
    .of_eq hst hca hh fun i r => (hrec i r).mpr⟩
  · rw [hpeers, hst, hca]
    exact hI.own.fresh
  · rw [hca]
    exact hI.own.coefficients
  · rw [hca, hh]
    exact hI.own.hash
  · simp only [hC, hca, hrec]
    exact hI.own.recorded
  · simp only [hst, hca, hrec]
    exact hI.own.out
  · simp only [hC, hh, hrec]
    exact hI.opened
  · simp only [hsh, hst, hca, hrec]
    exact hI.shares

/-- An accepted hash. -/
theorem BindInv.putHash (hI : BindInv S dealt j s) {i : ℤ} {h : Text}
    (hb : Binds S s (.commitmentHash i h)) :
    BindInv S dealt j (s.putHash i h) ∧ Frozen s (s.putHash i h) := by
  -- an entry changes only while it is allowed to
  have hkeep : ∀ k, s.state ≠ .awaitingHashes ∨ k ∈ s.receivedCommitments
      ∨ (k = s.caID ∧ s.cryptoCA.published ≠ none) →
      (s.putHash i h).receivedHashes.lookup k = s.receivedHashes.lookup k := by
    intro k hor
    by_cases hki : k = i
    · subst hki
      rcases hb with hsame | ⟨hst, hmem, hown⟩
      · rw [hsame]
        exact AList.lookup_insert _
      · rcases hor with hne | hin | ⟨hid, hpub⟩
        · exact absurd hst hne
        · exact absurd hin hmem
        · exact absurd (hown hid) hpub
    · exact AList.lookup_insert_ne hki
  have hf : Frozen s (s.putHash i h) :=
    ⟨id, fun hst k => hkeep k (.inl hst), fun k hk => hkeep k (.inr (.inl hk)), fun _ _ hr => hr,
      fun hst => ⟨hst, rfl⟩⟩
  refine ⟨{ hI with own := { hI.own with hash := ?_ }, opened := ?_ }, hf⟩
  · intro r hr
    have hpub : s.cryptoCA.published ≠ none := by
      rw [show s.cryptoCA.published = some r from hr]
      simp
    exact (hkeep j (.inr (.inr ⟨hI.caID.symm, hpub⟩))).trans (hI.own.hash r hr)
  · intro k hmem
    obtain ⟨r, hr, hh⟩ := hI.opened k hmem
    exact ⟨r, hr, (hf.hash k hmem).trans hh⟩

/-- An accepted reveal, of a peer or in the CA's own name. -/
theorem BindInv.putReveal (hI : BindInv S dealt j s) {i : ℤ} {r : Reveal G1 G2}
    (hh : s.receivedHashes.lookup i = some (hashCommitments S r))
    (hb : i ∈ s.receivedCommitments → Recorded s i r)
    (hown : i = j → s.cryptoCA.published = some r) :
    BindInv S dealt j (s.putReveal i r) ∧ Frozen s (s.putReveal i r) := by
  have hrev : ∀ k r', Recorded s k r' → Recorded (s.putReveal i r) k r' := by
    intro k r' hr'
    by_cases hki : k = i
    · subst hki
      rw [hr'.unique (hb hr'.mem)]
      exact recorded_putReveal_self
    · exact recorded_putReveal_ne hki hr'
  have hf : Frozen s (s.putReveal i r) := .of_eq rfl rfl rfl hrev
  refine ⟨{ hI with own := { hI.own with recorded := ?_, out := ?_ }, opened := ?_, shares := ?_ },
    hf⟩
  · intro hmem
    by_cases hji : j = i
    · subst hji
      exact ⟨r, hown rfl, recorded_putReveal_self⟩
    · obtain ⟨r', hpub, hr'⟩ := hI.own.recorded (((AList.mem_insert _).mp hmem).resolve_left hji)
      exact ⟨r', hpub, hrev j r' hr'⟩
  · intro hst r' hpub
    exact hrev j r' (hI.own.out hst r' hpub)
  · intro k hmem
    by_cases hki : k = i
    · subst hki
      exact ⟨r, recorded_putReveal_self, hh⟩
    · obtain ⟨r', hr', hh'⟩ := hI.opened k (((AList.mem_insert _).mp hmem).resolve_left hki)
      exact ⟨r', hrev k r' hr', hh'⟩
  · exact hI.shares_of rfl hrev id rfl

/-- A recorded share: after its verification, or the own one of a CA that is no longer
in the hash phase. -/
theorem BindInv.putShare (hI : BindInv S dealt j s) {i : ℤ} {a : ZMod p}
    (hv : (i = j ∧ s.state ≠ .awaitingHashes ∧ s.cryptoCA.published = none)
      ∨ ∃ r, Recorded s i r ∧ ∃ b,
        dealt i a b r ∧ verifyShare S a b r.commitmentsG1 j = some true) :
    BindInv S dealt j (s.putShare i a) ∧ Frozen s (s.putShare i a) := by
  have hf : Frozen s (s.putShare i a) := .of_eq rfl rfl rfl fun _ _ hr => hr
  refine ⟨{ hI with own := { hI.own with }, shares := ?_ }, hf⟩
  intro k a' ha'
  rcases lookup_insert_cases ha' with ⟨rfl, rfl⟩ | ha'
  · exact hv
  · exact hI.shares k a' ha'

/-- **A message that binds keeps the recorded values.** -/
theorem BindInv.react (hI : BindInv S dealt j s) {m : DkgMsg p G1 G2} (hb : Binds S s m)
    (hdealt : ∀ i a b r, m = .share i a b → i ∉ s.disqualifiedIds → Recorded s i r →
      dealt i a b r) (hR : Reacts S s m l t) :
    (BindInv S dealt j t ∧ Frozen s t) ∧ t.state = s.state := by
  cases hR with
  | hash k h => exact ⟨hI.putHash hb, rfl⟩
  | @revealAccepted k r hh =>
    obtain ⟨hsame, hown⟩ := hb hh
    exact ⟨hI.putReveal hh hsame fun hk => hown (hk.trans hI.caID.symm), rfl⟩
  | revealRejected => exact ⟨hI.quiet rfl rfl rfl rfl rfl rfl rfl rfl rfl, rfl⟩
  | shareIgnored => exact ⟨⟨hI, .refl s⟩, rfl⟩
  | @shareAccepted k a b C hq hC hv =>
    obtain ⟨r, hr, -⟩ := hI.opened k (mem_of_lookup hC)
    have hCr : C = r.commitmentsG1 := Option.some.inj (hC.symm.trans hr.1)
    rw [hI.caID, hCr] at hv
    exact ⟨hI.putShare (.inr ⟨r, hr, b, hdealt k a b r rfl hq hr, hv⟩), rfl⟩
  | shareRejected => exact ⟨hI.quiet rfl rfl rfl rfl rfl rfl rfl rfl rfl, rfl⟩
  | complaint => exact ⟨hI.quiet rfl rfl rfl rfl rfl rfl rfl rfl rfl, rfl⟩

/-- A connection that comes up records nothing. -/
theorem BindInv.connects {target : Host} (hI : BindInv S dealt j s) (hC : Connects s target l t) :
    (BindInv S dealt j t ∧ Frozen s t) ∧ t.state = s.state := by
  cases hC with
  | ignored => exact ⟨⟨hI, .refl s⟩, rfl⟩
  | early => exact ⟨hI.quiet rfl rfl rfl rfl rfl rfl rfl rfl rfl, rfl⟩
  | late => exact ⟨hI.quiet rfl rfl rfl rfl rfl rfl rfl rfl rfl, rfl⟩

/-- What `startDKG` assigns, of a CA that has not started. -/
theorem BindInv.launch (hI : BindInv S dealt j s) (hnone : s.hostToPeerId = none)
    (peers : List (Host × ℤ)) (threshold n : ℕ) {c : Coefficients p} {r : Reveal G1 G2}
    (hlen : c.secretCoefficients.length = c.blindingCoefficients.length)
    (hown : ∀ r, dealt j (evaluatePolynomial c.secretCoefficients j)
      (evaluatePolynomial c.blindingCoefficients j) r)
    (hr : computeCommitments S c = some r) :
    BindInv S dealt j (launch S s peers threshold n c r)
      ∧ Frozen s (launch S s peers threshold n c r) := by
  obtain ⟨hst, -, hpub⟩ := hI.own.fresh hnone
  -- nothing is recorded in the CA's own name yet
  have hnot : j ∉ s.receivedCommitments := by
    intro hmem
    obtain ⟨r', hr', -⟩ := hI.own.recorded hmem
    exact absurd (hpub.symm.trans hr') (by simp)
  have hother : ∀ k, k ≠ j → (Dkg.launch S s peers threshold n c r).receivedHashes.lookup k
      = s.receivedHashes.lookup k := by
    intro k hk
    exact AList.lookup_insert_ne (by rw [hI.caID]; exact hk)
  have hkeep : ∀ k ∈ s.receivedCommitments,
      (Dkg.launch S s peers threshold n c r).receivedHashes.lookup k
        = s.receivedHashes.lookup k := by
    intro k hmem
    exact hother k fun hk => hnot (hk ▸ hmem)
  constructor
  · refine ⟨hI.caID,
      ⟨fun h => absurd h (by simp [Dkg.launch, CAState.putHash]), ?_, ?_, ?_, ?_⟩, ?_, ?_⟩
    · intro c' hc'
      obtain rfl : c = c' := Option.some.inj hc'
      exact ⟨hr, hlen, hown⟩
    · intro r' hr'
      obtain rfl : r = r' := Option.some.inj hr'
      rw [← hI.caID]
      exact AList.lookup_insert _
    · exact fun hmem => absurd hmem hnot
    · exact fun hne => absurd hst hne
    · intro k hmem
      obtain ⟨r', hr', hh⟩ := hI.opened k hmem
      exact ⟨r', hr', (hkeep k hmem).trans hh⟩
    · intro k a ha
      rcases hI.shares k a ha with ⟨-, hne, -⟩ | hv
      · exact absurd hst hne
      · exact .inr hv
  · exact ⟨fun h => absurd hst h, fun h => absurd hst h, hkeep, fun _ _ h => h,
      fun h => absurd (hst.symm.trans h) (by simp)⟩

/-- `startDKG` that throws: there are no coefficients to commit to. -/
theorem BindInv.start_throws (hI : BindInv S dealt j s) (hnone : s.hostToPeerId = none)
    (peers : List (Host × ℤ)) (threshold n : ℕ) {c : Coefficients p}
    (hlen : c.secretCoefficients.length = c.blindingCoefficients.length)
    (hown : ∀ r, dealt j (evaluatePolynomial c.secretCoefficients j)
      (evaluatePolynomial c.blindingCoefficients j) r)
    (hr : computeCommitments S c = none) :
    BindInv S dealt j { s with hostToPeerId := some peers, threshold := threshold, n := n
                               cryptoCA := { s.cryptoCA with coefficients := some c } }
      ∧ Frozen s { s with hostToPeerId := some peers, threshold := threshold, n := n
                          cryptoCA := { s.cryptoCA with coefficients := some c } } := by
  obtain ⟨hst, -, hpub⟩ := hI.own.fresh hnone
  constructor
  · refine { hI with own := { hI.own with fresh := ?_, coefficients := ?_ } }
    · exact fun h => absurd h (by simp)
    · intro c' hc'
      obtain rfl : c = c' := Option.some.inj hc'
      exact ⟨hr.trans hpub.symm, hlen, hown⟩
  · exact ⟨id, fun _ _ => rfl, fun _ _ => rfl, fun _ _ h => h,
      fun h => absurd (hst.symm.trans h) (by simp)⟩

/-- **The phase that finishes binds the keys**: the maps as they are then say what they were
computed from. -/
theorem BindInv.finalize (hI : BindInv S dealt j s) {ca : CA p G1 G2}
    (hfin : s.finalize = (ca, none)) :
    KeysBound S dealt j { s with cryptoCA := ca, state := .done }
      { s with cryptoCA := ca, state := .done } := by
  obtain ⟨h1, h2, h3, hmem⟩ := CAState.finalize_ok hfin
  -- a recorded share of a qualified id came with a blinding value that opens its reveal
  have hopen : ∀ q, ∃ b, q ∈ s.qualifiedIds →
      ∃ a r, s.receivedSecretShares.lookup q = some a ∧ Recorded s q r
        ∧ dealt q a b r ∧ verifyShare S a b r.commitmentsG1 j = some true := by
    intro q
    by_cases hq : q ∈ s.qualifiedIds
    · obtain ⟨a, ha⟩ := lookup_of_mem (hmem q hq)
      have hin : q ∈ s.receivedCommitments := AList.mem_keys.mpr (List.mem_filter.mp hq).1
      rcases hI.shares q a ha with ⟨rfl, -, hnone⟩ | ⟨r, hr, b, hb, hv⟩
      · obtain ⟨r, hr, -⟩ := hI.own.recorded hin
        exact absurd (hnone.symm.trans hr) (by simp)
      · exact ⟨b, fun _ => ⟨a, r, ha, hr, hb, hv⟩⟩
    · exact ⟨0, fun h => absurd h hq⟩
  choose b hb using hopen
  refine ⟨fun id => (s.receivedSecretShares.lookup id).getD 0, b,
    fun id => ⟨(s.receivedCommitments.lookup id).getD [],
      (s.receivedPubKeyG1.lookup id).getD 1, (s.receivedPubKeyG2.lookup id).getD 1⟩,
    fun q hq => ?_, h1, h2, h3⟩
  obtain ⟨a, r, ha, hr, hdealt, hv⟩ := hb q hq
  dsimp only
  rw [ha, hr.1, hr.2.1, hr.2.2]
  exact ⟨rfl, hdealt, ⟨hr, hr⟩, hv⟩

section Phases

variable [Fact p.Prime] [ExpGroup p G1]

/-- **A completed phase keeps them.** -/
theorem BindInv.advance (hI : BindInv S dealt j s) (hA : Advance s l t) :
    BindInv S dealt j t ∧ Frozen s t := by
  have hdone := hA.ne_done
  cases hA with
  | @toReveals peers r hst hp hn hc hr =>
    obtain rfl := hI.caID
    -- its own reveal, which is the one it may have recorded already
    have hsame : s.caID ∈ s.receivedCommitments → Recorded s s.caID r := by
      intro hmem
      obtain ⟨r', hr', hrec⟩ := hI.own.recorded hmem
      rwa [Option.some.inj (hr.symm.trans hr')]
    obtain ⟨hI', hf⟩ := hI.putReveal (hI.own.hash r hr) hsame fun _ => hr
    refine ⟨{ hI' with own := { hI'.own with fresh := ?_, out := ?_ }, shares := ?_ },
      .of_phase (fun h => absurd hst h) hdone rfl hf.reveal⟩
    · exact fun h => absurd (hp.symm.trans h) (by simp)
    · intro _ r' hr'
      obtain rfl : r = r' := Option.some.inj (hr.symm.trans hr')
      exact recorded_putReveal_self
    · exact hI'.shares_of rfl (fun _ _ h => h) (fun _ => by simp [CAState.putReveal]) rfl
  | toRevealsNull hst hp hr =>
    refine ⟨{ hI with own := { hI.own with fresh := ?_, out := ?_ }, shares := ?_ },
      .of_phase (fun h => absurd hst h) hdone rfl fun _ _ hr => hr⟩
    · exact fun h => absurd (hp.symm.trans h) (by simp)
    · exact fun _ r' hr' => absurd (hr.symm.trans hr') (by simp)
    · exact hI.shares_of rfl (fun _ _ h => h) (fun _ => by simp) rfl
  | @toShares peers c hst hn hp hc =>
    obtain rfl := hI.caID
    have hne : s.state ≠ .awaitingHashes := by simp [hst]
    obtain ⟨hcomm, hlen, hown⟩ := hI.own.coefficients c hc
    -- its own share is a value of the polynomials it has committed to
    have hv : (s.caID = s.caID ∧ s.state ≠ .awaitingHashes ∧ s.cryptoCA.published = none)
        ∨ ∃ r, Recorded s s.caID r ∧ ∃ b,
          dealt s.caID (evaluatePolynomial c.secretCoefficients s.caID) b r
            ∧ verifyShare S (evaluatePolynomial c.secretCoefficients s.caID) b r.commitmentsG1
              s.caID = some true := by
      cases hpub : s.cryptoCA.published with
      | none => exact .inl ⟨rfl, hne, rfl⟩
      | some r =>
        exact .inr ⟨r, hI.own.out hne r hpub, _, hown r,
          verifyShare_honest S (hcomm.trans hpub) hlen _⟩
    obtain ⟨hI', hf⟩ := hI.putShare hv
    refine ⟨{ hI' with own := { hI'.own with fresh := ?_, out := ?_ }, shares := ?_ },
      .of_phase (fun _ => by simp [CAState.putShare]) hdone rfl hf.reveal⟩
    · exact fun h => absurd (hp.symm.trans h) (by simp)
    · exact fun _ => hI'.own.out hne
    · exact hI'.shares_of rfl (fun _ _ h => h) (fun _ => by simp [CAState.putShare]) rfl
  | toSharesNull hst hnull =>
    have hne : s.state ≠ .awaitingHashes := by simp [hst]
    refine ⟨{ hI with own := { hI.own with fresh := ?_, out := ?_ }, shares := ?_ },
      .of_phase (fun _ => by simp) hdone rfl fun _ _ hr => hr⟩
    · exact fun h => absurd (hI.own.fresh h).1 hne
    · exact fun _ => hI.own.out hne
    · exact hI.shares_of rfl (fun _ _ h => h) (fun _ => by simp) rfl
  | @finalize ca hst hn ht hfin =>
    have hne : s.state ≠ .awaitingHashes := by simp [hst]
    obtain ⟨hpub, hcoef⟩ := finalize_ok_frame hfin
    refine ⟨{ hI with own := ⟨?_, ?_, ?_, ?_, ?_⟩, shares := ?_ },
      .of_phase (fun _ => by simp) hdone rfl fun _ _ hr => hr⟩
    · exact fun h => absurd (hI.own.fresh h).1 hne
    · exact fun c hc => absurd (hcoef.symm.trans hc) (by simp)
    · exact fun r hr => hI.own.hash r (hpub.symm.trans hr)
    · intro hmem
      obtain ⟨r, hr, hrec⟩ := hI.own.recorded hmem
      exact ⟨r, hpub.trans hr, hrec⟩
    · exact fun _ r hr => hI.own.out hne r (hpub.symm.trans hr)
    · exact hI.shares_of rfl (fun _ _ h => h) (fun _ => by simp) hpub
  | @finalizeThrows ca e hst hfin =>
    have hpub : ca.published = s.cryptoCA.published := by
      rw [← (finalize_frame s).1, hfin]
    have hcoef : ca.coefficients = s.cryptoCA.coefficients := by
      rw [← (finalize_frame s).2 (by rw [hfin]; simp), hfin]
    refine ⟨{ hI with own := ⟨?_, ?_, ?_, ?_, ?_⟩, shares := ?_ },
      .of_phase id hdone rfl fun _ _ hr => hr⟩
    · intro h
      rw [hpub, hcoef]
      exact hI.own.fresh h
    · intro c hc
      rw [hpub]
      exact hI.own.coefficients c (hcoef.symm.trans hc)
    · exact fun r hr => hI.own.hash r (hpub.symm.trans hr)
    · intro hmem
      obtain ⟨r, hr, hrec⟩ := hI.own.recorded hmem
      exact ⟨r, hpub.trans hr, hrec⟩
    · exact fun hne r hr => hI.own.out hne r (hpub.symm.trans hr)
    · exact hI.shares_of rfl (fun _ _ h => h) id hpub

theorem BindInv.advances (hA : Advances s l t) (hI : BindInv S dealt j s) :
    BindInv S dealt j t ∧ Frozen s t := by
  induction hA with
  | refl s => exact ⟨hI, .refl s⟩
  | head hA _ ih =>
    obtain ⟨hI₁, hf₁⟩ := hI.advance hA
    obtain ⟨hI₂, hf₂⟩ := ih hI₁
    exact ⟨hI₂, hf₁.trans hf₂ hI⟩

/-- A chain of phases that ends in `DONE` ends with that phase. -/
theorem BindInv.finishes (hA : Advances s l t) (hI : BindInv S dealt j s) (hs : s.state ≠ .done)
    (ht : t.state = .done) : KeysBound S dealt j t t := by
  induction hA with
  | refl => exact absurd ht hs
  | @head s m t l l' hA hrest ih =>
    by_cases hm : m.state = .done
    · obtain rfl := advances_of_done hrest hm
      cases hA with
      | toReveals => simp [CAState.putReveal] at hm
      | toRevealsNull => simp at hm
      | toShares => simp [CAState.putShare] at hm
      | toSharesNull => simp at hm
      | finalize hst hn ht' hfin => exact hI.finalize hfin
      | finalizeThrows hst hfin => exact absurd (hst.symm.trans hm) (by simp)
    · exact ih (hI.advance hA).1 hm ht

end Phases

end Invariant

/-! ## Runs -/

section Runs

variable {p : ℕ} [Fact p.Prime] {G1 G2 GT : Type} [CommGroup G1] [CommGroup G2] [CommGroup GT]
  [ExpGroup p G1] [DecidableEq G1] {S : CryptimeleonSetup p G1 G2 GT} {cfg : Config p}
  {follows : ℤ → Bool} {j : ℤ} {net net' net₁ net₂ : Net p G1 G2}

omit [Fact p.Prime] [ExpGroup p G1] in
/-- What was dealt stays dealt. -/
theorem ShareDealt.step {i : ℤ} {a b : ZMod p} {r : Reveal G1 G2}
    (h : ShareDealt S cfg follows j net i a b r) {e : Event p G1 G2} (hok : BindsAt S cfg j net e)
    (hst : net.step S cfg follows e = some net') : ShareDealt S cfg follows j net' i a b r := by
  rcases h with hown | ⟨before, after, k, hrun, hch, hacc, hdel, hrest⟩
  · exact .inl hown
  · exact .inr ⟨before, after, k, hrun, hch, hacc, hdel, hrest.tail hok hst⟩

omit [Fact p.Prime] [ExpGroup p G1] in
/-- One step whose message to `j`, if any, binds: what `j` records in it, and then the
phases it completes. -/
theorem BindInv.moves (hrun : Run (Net.step S cfg follows) (BindsAt S cfg j) Net.init net)
    (hI : BindInv S (ShareDealt S cfg follows j net) j (net.ca j)) {e : Event p G1 G2}
    (hok : BindsAt S cfg j net e) (hst : net.step S cfg follows e = some net') :
    ∃ u l, ((BindInv S (ShareDealt S cfg follows j net') j u ∧ Frozen (net.ca j) u)
        ∧ u.state = (net.ca j).state)
      ∧ Advances u l (net'.ca j) := by
  replace hI : BindInv S (ShareDealt S cfg follows j net') j (net.ca j) :=
    hI.mono fun i a b r h => h.step hok hst
  rcases Net.step_ca hst j with hsame | ⟨-, -, hnone, hca⟩ | ⟨k, -, -, hca⟩ |
    ⟨i, m, rest, rfl, -, hch, hca⟩
  · rw [hsame]
    exact ⟨_, [], ⟨⟨hI, .refl _⟩, rfl⟩, .refl _⟩
  · have hlen := cfg.coeffs_length j
    have hown : ∀ r, ShareDealt S cfg follows j net' j (cfg.shareOf j j) (cfg.blindOf j j) r :=
      fun r => .inl ⟨rfl, rfl, rfl⟩
    rw [hca]
    cases hr : computeCommitments S (cfg.coeffs j) with
    | none =>
      refine ⟨_, [], ⟨hI.start_throws hnone (cfg.peers j) cfg.threshold cfg.n hlen hown hr, rfl⟩,
        ?_⟩
      have hsame : ((net.ca j).startDKG S (cfg.peers j) cfg.threshold cfg.n (cfg.secret j)
          (cfg.blinding j)).state = { net.ca j with
            hostToPeerId := some (cfg.peers j), threshold := cfg.threshold, n := cfg.n
            cryptoCA := { (net.ca j).cryptoCA with coefficients := some (cfg.coeffs j) } } := by
        unfold CAState.startDKG
        dsimp only
        rw [show generatePrivatePolynomial cfg.threshold (cfg.secret j) (cfg.blinding j)
          = cfg.coeffs j from rfl, hr]
      rw [hsame]
      exact .refl _
    | some r =>
      exact ⟨_, _, ⟨hI.launch hnone (cfg.peers j) cfg.threshold cfg.n hlen hown hr, rfl⟩,
        CAState.start_spec S (net.ca j) (cfg.peers j) cfg.threshold cfg.n (cfg.secret j)
          (cfg.blinding j) hr⟩
  · obtain ⟨l₁, t, l₂, hC, hA, -⟩ := CAState.connect_spec (net.ca j) (cfg.host k)
    rw [hca]
    exact ⟨t, l₂, hI.connects hC, hA⟩
  · obtain ⟨l₁, t, l₂, hR, hA, -⟩ := CAState.handle_spec S (net.ca j) m
    have hhead : (net.chan i (cfg.host j)).head? = some m := by rw [hch]; rfl
    -- a share that is not ignored is dealt in this step
    have hdealt : ∀ k a b r, m = .share k a b → k ∉ (net.ca j).disqualifiedIds →
        Recorded (net.ca j) k r → ShareDealt S cfg follows j net' k a b r := by
      rintro k a b r rfl hq hr
      exact .inr ⟨net, net', i, hrun, hhead, ⟨hq, hr⟩, hst, .refl⟩
    rw [hca]
    exact ⟨t, l₂, hI.react (hok rfl m hhead) hdealt hR, hA⟩

/-- One step whose message to `j`, if any, binds. -/
theorem BindInv.step (hrun : Run (Net.step S cfg follows) (BindsAt S cfg j) Net.init net)
    (hI : BindInv S (ShareDealt S cfg follows j net) j (net.ca j)) {e : Event p G1 G2}
    (hok : BindsAt S cfg j net e) (hst : net.step S cfg follows e = some net') :
    BindInv S (ShareDealt S cfg follows j net') j (net'.ca j) ∧ Frozen (net.ca j) (net'.ca j) := by
  obtain ⟨u, l, ⟨⟨hI₁, hf₁⟩, -⟩, hA⟩ := BindInv.moves hrun hI hok hst
  obtain ⟨hI₂, hf₂⟩ := BindInv.advances hA hI₁
  exact ⟨hI₂, hf₁.trans hf₂ hI⟩

/-- The step in which `j` finishes. -/
theorem BindInv.enters_done (hrun : Run (Net.step S cfg follows) (BindsAt S cfg j) Net.init net)
    (hI : BindInv S (ShareDealt S cfg follows j net) j (net.ca j)) {e : Event p G1 G2}
    (hok : BindsAt S cfg j net e) (hst : net.step S cfg follows e = some net')
    (hs : (net.ca j).state ≠ .done) (ht : (net'.ca j).state = .done) :
    KeysBound S (ShareDealt S cfg follows j net') j (net'.ca j) (net'.ca j) := by
  obtain ⟨u, l, ⟨⟨hI₁, -⟩, hu⟩, hA⟩ := BindInv.moves hrun hI hok hst
  exact BindInv.finishes hA hI₁ (by rw [hu]; exact hs) ht

/-- A whole run: what is fixed at its start is unchanged at its end. -/
theorem BindInv.run (h₁ : Run (Net.step S cfg follows) (BindsAt S cfg j) Net.init net₁)
    (hI : BindInv S (ShareDealt S cfg follows j net₁) j (net₁.ca j))
    (hrun : Run (Net.step S cfg follows) (BindsAt S cfg j) net₁ net₂) :
    BindInv S (ShareDealt S cfg follows j net₂) j (net₂.ca j) ∧ Frozen (net₁.ca j) (net₂.ca j) := by
  have hall : Run (Net.step S cfg follows) (BindsAt S cfg j) Net.init net₂
      ∧ BindInv S (ShareDealt S cfg follows j net₂) j (net₂.ca j)
      ∧ Frozen (net₁.ca j) (net₂.ca j) := by
    refine hrun.invariant
      (I := fun net => Run (Net.step S cfg follows) (BindsAt S cfg j) Net.init net
        ∧ BindInv S (ShareDealt S cfg follows j net) j (net.ca j) ∧ Frozen (net₁.ca j) (net.ca j))
      ⟨h₁, hI, .refl _⟩ ?_
    rintro net net' e ⟨hr, hI', hf⟩ hok hst
    obtain ⟨hI₂, hf₂⟩ := BindInv.step hr hI' hok hst
    exact ⟨hr.tail hok hst, hI₂, hf.trans hf₂ hI⟩
  exact hall.2

omit [Fact p.Prime] [ExpGroup p G1] in
theorem bindInv_init : BindInv S (ShareDealt S cfg follows j Net.init) j
    ((Net.init : Net p G1 G2).ca j) where
  caID := rfl
  own :=
    { fresh := fun _ => ⟨rfl, rfl, rfl⟩
      coefficients := fun c h => by simp [Net.init] at h
      hash := fun r h => by simp [Net.init] at h
      recorded := fun h => by simp [Net.init] at h
      out := fun h => absurd rfl h }
  opened i h := by simp [Net.init] at h
  shares i a h := by simp [Net.init] at h

/-- What is recorded after any run from the start. -/
theorem BindInv.reached (h : Run (Net.step S cfg follows) (BindsAt S cfg j) Net.init net) :
    BindInv S (ShareDealt S cfg follows j net) j (net.ca j) :=
  (BindInv.run .refl bindInv_init h).1

/-- **Commit-then-reveal binds** in every run whose messages to CA `j` bind.
Let `net₂` be reached from `net₁`. The reveal recorded in `net₂` under any id is
the opening of a hash which, if the own reveal was out in `net₁` (the hash phase
was over), was already recorded there; what `j` had accepted in `net₁` is still
what it has, hash, commitments and public keys; and once `j` is `DONE`, there was
a step of the run into `DONE`, and its keys are made of the shares recorded then
for the ids qualified then, which verify, as they were dealt, against these
commitments. -/
theorem reveals_bind (h₁ : Run (Net.step S cfg follows) (BindsAt S cfg j) Net.init net₁)
    (h₂ : Run (Net.step S cfg follows) (BindsAt S cfg j) net₁ net₂) :
    (∀ i r, Recorded (net₂.ca j) i r →
        (net₂.ca j).receivedHashes.lookup i = some (hashCommitments S r)
          ∧ ((net₁.ca j).state ≠ .awaitingHashes →
            (net₁.ca j).receivedHashes.lookup i = some (hashCommitments S r)))
      ∧ (∀ i ∈ (net₁.ca j).receivedCommitments,
        (net₂.ca j).receivedHashes.lookup i = (net₁.ca j).receivedHashes.lookup i
          ∧ ∃ r, Recorded (net₁.ca j) i r ∧ Recorded (net₂.ca j) i r)
      ∧ ((net₂.ca j).state = .done → ∃ (before fin : Net p G1 G2) (e : Event p G1 G2),
        (Run (Net.step S cfg follows) (BindsAt S cfg j) Net.init before
            ∧ before.step S cfg follows e = some fin
            ∧ Run (Net.step S cfg follows) (BindsAt S cfg j) fin net₂)
          ∧ ((before.ca j).state ≠ .done ∧ (fin.ca j).state = .done)
          ∧ KeysBound S (ShareDealt S cfg follows j fin) j (fin.ca j) (net₂.ca j)) := by
  have hI₁ := BindInv.reached h₁
  obtain ⟨hI₂, hf⟩ := BindInv.run h₁ hI₁ h₂
  refine ⟨fun i r hr => ?_, fun i hmem => ?_, fun hdone => ?_⟩
  · obtain ⟨r', hr', hh⟩ := hI₂.opened i hr.mem
    obtain rfl := hr.unique hr'
    exact ⟨hh, fun hst => (hf.hashes hst i).symm.trans hh⟩
  · obtain ⟨r, hr, -⟩ := hI₁.opened i hmem
    exact ⟨hf.hash i hmem, r, hr, hf.reveal i r hr⟩
  · obtain ⟨before, fin, e, ⟨hrun, hok, hst, hrest⟩, hbefore, hfin⟩ :=
      (h₁.trans h₂).exists_enters (P := fun net => (net.ca j).state = .done)
        (by simp [Net.init]) hdone
    have hkeys := BindInv.enters_done hrun (BindInv.reached hrun) hok hst hbefore hfin
    obtain ⟨-, hfrozen⟩ := BindInv.run (hrun.tail hok hst)
      (BindInv.reached (hrun.tail hok hst)) hrest
    exact ⟨before, fin, e, ⟨hrun, hst, hrest⟩, ⟨hbefore, hfin⟩, hkeys.frozen hfin hfrozen⟩

end Runs

/-! ## Two runs of CA 1 against a peer 2 outside the protocol -/

section Peer

/-- CA 2 publishes the hash of its polynomials: CA 1 sends its own reveal. -/
def hashOfTwo : List (Event 5 (Multiplicative (ZMod 5)) (Multiplicative (ZMod 5))) :=
  [.startDKG 1, .connectionUp 1 2,
    .inject 2 1 (helloMsg (productSetup 5 2) (localConfig 5 2 2) 2), .deliver 2 1]

/-- CA 2 reveals and sends the share of the polynomials of `k`. -/
def revealAndShare (k : ℤ) : List (Event 5 (Multiplicative (ZMod 5)) (Multiplicative (ZMod 5))) :=
  [.inject 2 1 (.reveal 2 ((localConfig 5 2 2).content (productSetup 5 2) k)), .deliver 2 1,
    .inject 2 1 (.share 2 ((localConfig 5 2 2).shareOf k 1) ((localConfig 5 2 2).blindOf k 1)),
    .deliver 2 1]

/-- With the polynomials it had committed to, CA 1 finishes with bound keys. -/
theorem reveals_bind_two :
    ∃ net₁ net₂, Run (Net.step (productSetup 5 2) (localConfig 5 2 2) (· = 1))
        (BindsAt (productSetup 5 2) (localConfig 5 2 2) 1) Net.init net₁
      ∧ Run (Net.step (productSetup 5 2) (localConfig 5 2 2) (· = 1))
        (BindsAt (productSetup 5 2) (localConfig 5 2 2) 1) net₁ net₂
      ∧ (net₁.ca 1).state = .awaitingReveals ∧ (net₂.ca 1).state = .done
      ∧ ∃ fin : Net 5 (Multiplicative (ZMod 5)) (Multiplicative (ZMod 5)),
        (fin.ca 1).state = .done
          ∧ KeysBound (productSetup 5 2)
            (ShareDealt (productSetup 5 2) (localConfig 5 2 2) (· = 1) 1 fin) 1
            (fin.ca 1) (net₂.ca 1) := by
  have hrun₁ : ∃ net₁, Run (Net.step (productSetup 5 2) (localConfig 5 2 2) (· = 1))
      (BindsAt (productSetup 5 2) (localConfig 5 2 2) 1) Net.init net₁
        ∧ (net₁.ca 1).state = .awaitingReveals
        ∧ (runEvents (Net.step (productSetup 5 2) (localConfig 5 2 2) (· = 1))
          (BindsAt (productSetup 5 2) (localConfig 5 2 2) 1) net₁ (revealAndShare 2)).any
            (fun net₂ => decide ((net₂.ca 1).state = .done)) = true :=
    exists_run hashOfTwo (by decide)
  obtain ⟨net₁, hrun₁, hst₁, hrest⟩ := hrun₁
  obtain ⟨net₂, hrun₂, hst₂⟩ := exists_run _ hrest
  obtain ⟨_, fin, _, -, ⟨-, hfin⟩, hkeys⟩ := (reveals_bind hrun₁ hrun₂).2.2 hst₂
  exact ⟨net₁, net₂, hrun₁, hrun₂, hst₁, hst₂, fin, hfin, hkeys⟩

/-- **A late hash is accepted.** After CA 1 has revealed, CA 2 publishes the
hash of other polynomials, reveals those and sends their share: CA 1 finishes
with a reveal of CA 2 whose hash it had not recorded when it revealed. -/
theorem late_hash_accepted :
    ∃ net₁ net₂, Run (Net.step (productSetup 5 2) (localConfig 5 2 2) (· = 1))
        (fun _ _ => True) Net.init net₁
      ∧ Run (Net.step (productSetup 5 2) (localConfig 5 2 2) (· = 1)) (fun _ _ => True) net₁ net₂
      ∧ (net₁.ca 1).state = .awaitingReveals ∧ (net₂.ca 1).state = .done
      ∧ 2 ∈ (net₂.ca 1).qualifiedIds
      ∧ ∃ r, Recorded (net₂.ca 1) 2 r
        ∧ (net₁.ca 1).receivedHashes.lookup 2 ≠ some (hashCommitments (productSetup 5 2) r) := by
  have hrun₁ : ∃ net₁, Run (Net.step (productSetup 5 2) (localConfig 5 2 2) (· = 1))
      (fun _ _ => True) Net.init net₁
        ∧ ((net₁.ca 1).state = .awaitingReveals
          ∧ (net₁.ca 1).receivedHashes.lookup 2
            ≠ some ((localConfig 5 2 2).hashOf (productSetup 5 2) 3))
        ∧ (runEvents (Net.step (productSetup 5 2) (localConfig 5 2 2) (· = 1))
          (fun _ _ => True) net₁
          (.inject 2 1 (.commitmentHash 2 ((localConfig 5 2 2).hashOf (productSetup 5 2) 3))
            :: .deliver 2 1 :: revealAndShare 3)).any
          (fun net₂ => decide (((net₂.ca 1).state = .done ∧ 2 ∈ (net₂.ca 1).qualifiedIds)
            ∧ Recorded (net₂.ca 1) 2 ((localConfig 5 2 2).content (productSetup 5 2) 3))) = true :=
    exists_run hashOfTwo (by decide)
  obtain ⟨net₁, hrun₁, ⟨hst₁, hne⟩, hrest⟩ := hrun₁
  obtain ⟨net₂, hrun₂, ⟨hst₂, hq⟩, hrec⟩ := exists_run _ hrest
  exact ⟨net₁, net₂, hrun₁, hrun₂, hst₁, hst₂, hq, _, hrec, hne⟩

end Peer

end Dittor.Dkg

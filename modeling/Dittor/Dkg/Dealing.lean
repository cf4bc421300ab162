import Dittor.Dkg.Disqualify
import Dittor.Dkg.Binding

/-!
# The master public key and the shared secret

A dealer contributes three things: commitments, against which its shares are
verified, and a public key in each of the two groups. `handleReveal` compares
all three with the published hash and nothing else, and `verifyShare` looks at
the commitments only. Nothing ties the keys to the commitments, the two keys to
each other, or the number of commitments to the threshold. One dealer is enough
for a CA to finish with two master keys that have no common logarithm
(`keys_without_secret`).

A dealing is a list of coefficients for each id: what `k` deals is the
polynomial with the coefficients `a k`, the CAs that follow the protocol dealing
what they have drawn. `Deals` is the condition that the messages of the others
are of one dealing: an accepted reveal holds the two powers of `a_k(0)`, an
accepted share is `a_k(j)`. In every run that meets it a CA that is `DONE` with
the qualified set `Q` holds the value at its id of the polynomial
`∑_{k ∈ Q} a_k`, and the master keys are the powers of its value at `0`
(`master_key_matches_secret`).
-/

namespace Dittor.Dkg

open Dittor.Lib Dittor.Crypto Polynomial

section Definitions

variable {p : ℕ} {G1 G2 GT : Type} [CommGroup G1] [CommGroup G2] [CommGroup GT]
  (S : CryptimeleonSetup p G1 G2 GT) (cfg : Config p) (a : ℤ → List (ZMod p))

/-- The keys are powers of the secret `a_0` of one polynomial. -/
def KeyPair (k : ℤ) (r : Reveal G1 G2) : Prop :=
  r.pubKeyG1 = zpw S.h1 ((a k).headD 0) ∧ r.pubKeyG2 = zpw S.pairing.g2 ((a k).headD 0)

/-- A message for CA `j` is of the dealing: the keys of a reveal and the value
of a share. -/
def Dealt (j : ℤ) : DkgMsg p G1 G2 → Prop
  | .reveal k r => KeyPair S a k r
  | .share k v _ => v = evaluatePolynomial (a k) j
  | _ => True

/-- The messages whose contents the CA records. -/
def Accepts [DecidableEq G1] (s : CAState p G1 G2) : DkgMsg p G1 G2 → Prop
  | .reveal k r => s.receivedHashes.lookup k = some (hashCommitments S r)
  | .share k v w => k ∉ s.disqualifiedIds
      ∧ ∃ C ∈ s.receivedCommitments.lookup k, verifyShare S v w C s.caID = some true
  | _ => True

/-- What a CA outside the protocol gets accepted is of the dealing. -/
def Deals [DecidableEq G1] (follows : ℤ → Bool) (net : Net p G1 G2) : Event p G1 G2 → Prop
  | .deliver i j => follows i = false → ∀ m ∈ (net.chan i (cfg.host j)).head?,
      Accepts S (net.ca j) m → Dealt S a j m
  | _ => True

instance [DecidableEq G1] [DecidableEq G2] (j : ℤ) (m : DkgMsg p G1 G2) :
    Decidable (Dealt S a j m) :=
  match m with
  | .commitmentHash _ _ => isTrue trivial
  | .reveal _ _ => (inferInstance : Decidable (_ ∧ _))
  | .share _ _ _ => (inferInstance : Decidable (_ = _))
  | .complaint _ _ _ => isTrue trivial

instance [DecidableEq G1] (s : CAState p G1 G2) (m : DkgMsg p G1 G2) :
    Decidable (Accepts S s m) :=
  match m with
  | .commitmentHash _ _ => isTrue trivial
  | .reveal _ _ => (inferInstance : Decidable (_ = _))
  | .share _ _ _ => (inferInstance : Decidable (_ ∧ ∃ C ∈ _, _))
  | .complaint _ _ _ => isTrue trivial

instance [DecidableEq G1] [DecidableEq G2] (follows : ℤ → Bool) (net : Net p G1 G2)
    (e : Event p G1 G2) : Decidable (Deals S cfg a follows net e) :=
  match e with
  | .startDKG _ => isTrue trivial
  | .connectionUp _ _ => isTrue trivial
  | .inject _ _ _ => isTrue trivial
  | .deliver i j => (inferInstance : Decidable (_ → ∀ m ∈ (net.chan i (cfg.host j)).head?, _))

/-- The keys of a CA that finished with the qualified set `Q`. -/
def KeysOf (j : ℤ) (Q : Finset ℤ) (ca : CA p G1 G2) : Prop :=
  ca.secretKeyShare = some (∑ k ∈ Q, evaluatePolynomial (a k) j)
    ∧ ca.masterPubKeyG1 = some (zpw S.h1 (∑ k ∈ Q, (a k).headD 0))
    ∧ ca.masterPubKeyG2 = some (zpw S.pairing.g2 (∑ k ∈ Q, (a k).headD 0))

/-- What CA `j` has drawn and recorded is of the dealing. -/
structure DealtCa (j : ℤ) (s : CAState p G1 G2) : Prop where
  caID : s.caID = j
  peers : ∀ peers, s.hostToPeerId = some peers → peers = cfg.peers j
  published : ∀ r, s.cryptoCA.published = some r → KeyPair S a j r
  coefficients : ∀ c, s.cryptoCA.coefficients = some c → c.secretCoefficients = a j
  pubKeyG1 : ∀ k P, s.receivedPubKeyG1.lookup k = some P → P = zpw S.h1 ((a k).headD 0)
  pubKeyG2 : ∀ k P, s.receivedPubKeyG2.lookup k = some P → P = zpw S.pairing.g2 ((a k).headD 0)
  keys : ∀ k ∈ s.receivedCommitments, k ∈ s.receivedPubKeyG1 ∧ k ∈ s.receivedPubKeyG2
  shares : ∀ k v, s.receivedSecretShares.lookup k = some v → v = evaluatePolynomial (a k) j

/-- Every message is of the dealing for the CA that listens at its destination. -/
def Sends (l : List (Host × DkgMsg p G1 G2)) : Prop :=
  ∀ e ∈ l, ∀ k, e.1 = cfg.host k → Dealt S a k e.2

/-- One event of CA `j`: from `s` to `u`, with `l` sent. -/
structure DealtMove (j : ℤ) (s : CAState p G1 G2) (l : List (Host × DkgMsg p G1 G2))
    (u : CAState p G1 G2) : Prop where
  ca : DealtCa S cfg a j u
  sends : Sends S cfg a l
  old : ∀ Q, s.state = .done → KeysOf S a j Q s.cryptoCA → KeysOf S a j Q u.cryptoCA
  new : s.state ≠ .done → u.state = .done → KeysOf S a j u.qualifiedIds.toFinset u.cryptoCA

/-- The invariant of the followers and of the channels they send on. -/
structure DealtNet (follows : ℤ → Bool) (net : Net p G1 G2) : Prop where
  ca : ∀ j ∈ cfg.ids, follows j = true → DealtCa S cfg a j (net.ca j)
  started : ∀ i ∈ net.started, i ∈ cfg.ids ∧ follows i = true
  chan : ∀ i j, follows i = true → ∀ m ∈ net.chan i (cfg.host j), Dealt S a j m
  done : ∀ j ∈ cfg.ids, follows j = true → (net.ca j).state = .done →
    ∃ Q, net.finalized j = some Q ∧ KeysOf S a j Q (net.ca j).cryptoCA

end Definitions

section Moves

variable {p : ℕ} {G1 G2 GT : Type} [CommGroup G1] [CommGroup G2] [CommGroup GT]
  {S : CryptimeleonSetup p G1 G2 GT} {cfg : Config p} {a : ℤ → List (ZMod p)} {j : ℤ}
  {s t u : CAState p G1 G2} {l l' : List (Host × DkgMsg p G1 G2)}

theorem Sends.append (h : Sends S cfg a l) (h' : Sends S cfg a l') : Sends S cfg a (l ++ l') := by
  intro e he
  rcases List.mem_append.mp he with he | he
  · exact h e he
  · exact h' e he

theorem sends_nil : Sends S cfg a ([] : List (Host × DkgMsg p G1 G2)) :=
  fun _ he => absurd he (by simp)

theorem DealtCa.enter (h : DealtCa S cfg a j s) (q : DkgState) :
    DealtCa S cfg a j { s with state := q } := { h with }

theorem DealtCa.putReveal (h : DealtCa S cfg a j s) {k : ℤ} {r : Reveal G1 G2}
    (hr : KeyPair S a k r) : DealtCa S cfg a j (s.putReveal k r) where
  caID := h.caID
  peers := h.peers
  published := h.published
  coefficients := h.coefficients
  pubKeyG1 i P hP := by
    rcases lookup_insert_cases hP with ⟨rfl, rfl⟩ | hP
    · exact hr.1
    · exact h.pubKeyG1 i P hP
  pubKeyG2 i P hP := by
    rcases lookup_insert_cases hP with ⟨rfl, rfl⟩ | hP
    · exact hr.2
    · exact h.pubKeyG2 i P hP
  keys i hi := by
    rcases (AList.mem_insert _).mp hi with he | hi
    · exact ⟨(AList.mem_insert _).mpr (Or.inl he), (AList.mem_insert _).mpr (Or.inl he)⟩
    · exact ⟨(AList.mem_insert _).mpr (Or.inr (h.keys i hi).1),
        (AList.mem_insert _).mpr (Or.inr (h.keys i hi).2)⟩
  shares := h.shares

theorem DealtCa.putShare (h : DealtCa S cfg a j s) {k : ℤ} {v : ZMod p}
    (hv : v = evaluatePolynomial (a k) j) : DealtCa S cfg a j (s.putShare k v) where
  caID := h.caID
  peers := h.peers
  published := h.published
  coefficients := h.coefficients
  pubKeyG1 := h.pubKeyG1
  pubKeyG2 := h.pubKeyG2
  keys := h.keys
  shares i w hw := by
    rcases lookup_insert_cases hw with ⟨rfl, rfl⟩ | hw
    · exact hv
    · exact h.shares i w hw

/-- The complaints of a CA deal nothing. -/
theorem sends_complaints (s : CAState p G1 G2) (k : ℤ) (reason : String) :
    Sends S cfg a (complaints s k reason) := by
  intro e he i _
  unfold complaints at he
  split at he
  · exact absurd he (by simp)
  · obtain ⟨x, -, rfl⟩ := List.mem_map.mp he
    trivial

/-- **A reaction** to a message that is of the dealing if it is accepted. -/
theorem DealtCa.react [DecidableEq G1] (h : DealtCa S cfg a j s) {m : DkgMsg p G1 G2}
    (hm : Accepts S s m → Dealt S a j m) (hR : Reacts S s m l t) :
    DealtCa S cfg a j t ∧ Sends S cfg a l ∧ t.state = s.state ∧ t.cryptoCA = s.cryptoCA := by
  have hsame : ∀ k, DealtCa S cfg a j (s.disqualify k) := fun k => { h with }
  cases hR with
  | hash k x => exact ⟨{ h with }, sends_nil, rfl, rfl⟩
  | revealAccepted hh => exact ⟨h.putReveal (hm hh), sends_nil, rfl, rfl⟩
  | revealRejected => exact ⟨hsame _, sends_complaints _ _ _, rfl, rfl⟩
  | shareIgnored => exact ⟨h, sends_nil, rfl, rfl⟩
  | shareAccepted hq hC hv => exact ⟨h.putShare (hm ⟨hq, _, hC, hv⟩), sends_nil, rfl, rfl⟩
  | shareRejected => exact ⟨hsame _, sends_complaints _ _ _, rfl, rfl⟩
  | complaint => exact ⟨hsame _, sends_nil, rfl, rfl⟩

/-- The own reveal and the own shares are of the dealing. -/
theorem DealtCa.connects {target : Host} (h : DealtCa S cfg a j s)
    (hC : Connects s target l t) :
    DealtCa S cfg a j t ∧ Sends S cfg a l ∧ t.state = s.state ∧ t.cryptoCA = s.cryptoCA := by
  cases hC with
  | ignored => exact ⟨h, sends_nil, rfl, rfl⟩
  | early =>
    refine ⟨{ h with }, fun e he i _ => ?_, rfl, rfl⟩
    obtain rfl := List.mem_singleton.mp he
    trivial
  | late hst hp hk hh hr =>
    refine ⟨{ h with }, fun e he i _ => ?_, rfl, rfl⟩
    rcases List.mem_cons.mp he with rfl | he
    · trivial
    · obtain rfl := List.mem_singleton.mp he
      show KeyPair S a s.caID _
      rw [h.caID]
      exact h.published _ hr

omit [CommGroup GT] in
/-- `finalizeDKG` keeps the polynomials or drops them. -/
theorem finalize_coefficients (s : CAState p G1 G2) :
    s.finalize.1.coefficients = s.cryptoCA.coefficients
      ∨ s.finalize.1.coefficients = none := by
  unfold CAState.finalize CA.finalizeDKG
  split
  · exact Or.inl rfl
  · split
    · exact Or.inl rfl
    · split
      · exact Or.inl rfl
      · exact Or.inr rfl

/-- The crypto object after `finalizeDKG` has drawn and published nothing else. -/
theorem DealtCa.finalize (h : DealtCa S cfg a j s) {ca : CA p G1 G2} {e : Option JavaException}
    (hf : s.finalize = (ca, e)) (q : DkgState) :
    DealtCa S cfg a j { s with cryptoCA := ca, state := q } := by
  have hca : ca = s.finalize.1 := by rw [hf]
  refine { h with published := fun r hr => ?_, coefficients := fun c hc => ?_ }
  · refine h.published r ?_
    rw [← (finalize_frame s).1, ← hca]
    exact hr
  · rcases finalize_coefficients s with heq | hnone
    · refine h.coefficients c ?_
      rw [← heq, ← hca]
      exact hc
    · rw [← hca] at hnone
      exact absurd (hnone.symm.trans hc) (by simp)

theorem DealtCa.sends_shares (h : DealtCa S cfg a j s) {peers : List (Host × ℤ)}
    {c : Coefficients p} (hp : s.hostToPeerId = some peers)
    (hc : s.cryptoCA.coefficients = some c) : Sends S cfg a (s.shareMessages peers c) := by
  intro e he k hk
  obtain ⟨x, hx, rfl⟩ := List.mem_map.mp he
  have hmem := List.mem_of_mem_filter hx
  rw [h.peers peers hp] at hmem
  obtain ⟨-, -, hhost⟩ := (cfg.mem_peers (i := j)).mp (show (x.1, x.2) ∈ cfg.peers j from hmem)
  -- the destination is the host of the id the polynomial was evaluated at
  have hxk : x.2 = k := cfg.host_inj (hhost.symm.trans hk)
  show evaluatePolynomial c.secretCoefficients x.2 = evaluatePolynomial (a s.caID) k
  rw [h.coefficients c hc, h.caID, hxk]

end Moves

section Keys

variable {p : ℕ} [Fact p.Prime] {G1 G2 GT : Type} [CommGroup G1] [CommGroup G2] [CommGroup GT]
  [ExpGroup p G1] [ExpGroup p G2] {S : CryptimeleonSetup p G1 G2 GT} {cfg : Config p}
  {a : ℤ → List (ZMod p)} {j : ℤ} {s t u : CAState p G1 G2}
  {l l' : List (Host × DkgMsg p G1 G2)}

/-- **The keys of a CA that finishes** are sums and powers of sums over its
qualified ids. -/
theorem DealtCa.keysOf (h : DealtCa S cfg a j s) {ca : CA p G1 G2}
    (hf : s.finalize = (ca, none)) : KeysOf S a j s.qualifiedIds.toFinset ca := by
  obtain ⟨h1, h2, h3, hmem⟩ := CAState.finalize_ok hf
  have hnd : s.qualifiedIds.Nodup := s.receivedCommitments.nodupKeys.filter _
  have hC : ∀ k ∈ s.qualifiedIds, k ∈ s.receivedCommitments := fun k hk =>
    AList.mem_keys.mpr (List.mem_of_mem_filter hk)
  refine ⟨?_, ?_, ?_⟩
  · rw [h1, List.sum_toFinset _ hnd, map_lookup_getD 0 hmem h.shares]
  · rw [h2, List.sum_toFinset _ hnd, ← prod_zpw,
      map_lookup_getD 1 (fun k hk => (h.keys k (hC k hk)).1) h.pubKeyG1]
  · rw [h3, List.sum_toFinset _ hnd, ← prod_zpw,
      map_lookup_getD 1 (fun k hk => (h.keys k (hC k hk)).2) h.pubKeyG2]

/-- **A completed phase** stays within the dealing. -/
theorem DealtCa.advance (h : DealtCa S cfg a j s) (hA : Advance s l t) :
    DealtMove S cfg a j s l t := by
  have hold : ∀ {P : Prop}, s.state = .done → P := fun hd => absurd hd hA.ne_done
  cases hA with
  | @toReveals peers r hst hp hn hc hr =>
    have hkey : KeyPair S a s.caID r := by
      rw [h.caID]
      exact h.published r hr
    refine ⟨(h.enter _).putReveal hkey, fun e he k _ => ?_, fun Q hd => hold hd, fun _ hd => ?_⟩
    · obtain ⟨x, -, rfl⟩ := List.mem_map.mp he
      exact hkey
    · exact absurd hd (by simp [CAState.putReveal])
  | toRevealsNull hst hp hr =>
    exact ⟨h.enter _, sends_nil, fun Q hd => hold hd, fun _ hd => absurd hd (by simp)⟩
  | @toShares peers c hst hn hp hc =>
    have hown : evaluatePolynomial c.secretCoefficients s.caID
        = evaluatePolynomial (a s.caID) j := by
      rw [h.coefficients c hc, h.caID]
    exact ⟨(h.enter _).putShare hown, h.sends_shares hp hc, fun Q hd => hold hd,
      fun _ hd => absurd hd (by simp [CAState.putShare])⟩
  | toSharesNull hst hnull =>
    exact ⟨h.enter _, sends_nil, fun Q hd => hold hd, fun _ hd => absurd hd (by simp)⟩
  | finalize hst hn ht hf =>
    exact ⟨h.finalize hf _, sends_nil, fun Q hd => hold hd, fun _ _ => h.keysOf hf⟩
  | finalizeThrows hst hf =>
    exact ⟨h.finalize hf _, sends_nil, fun Q hd => hold hd,
      fun _ hd => absurd (hst.symm.trans hd) (by simp)⟩

theorem DealtCa.advances (hA : Advances s l u) (h : DealtCa S cfg a j s) :
    DealtMove S cfg a j s l u := by
  induction hA with
  | refl s => exact ⟨h, sends_nil, fun _ _ hk => hk, fun hne hd => absurd hd hne⟩
  | @head s t u l l' hA hrest ih =>
    have h₁ := h.advance hA
    have h₂ := ih h₁.ca
    refine ⟨h₂.ca, h₁.sends.append h₂.sends, fun Q hd hk => ?_, fun hne hd => ?_⟩
    · exact absurd hd hA.ne_done
    · by_cases ht : t.state = .done
      · rw [advances_of_done hrest ht]
        exact h₁.new hne ht
      · exact h₂.new ht hd

/-- What comes before the phase checks, then the phases it completes. -/
theorem DealtMove.of_advances (hsends : Sends S cfg a l) (ht : DealtCa S cfg a j t)
    (hst : t.state = s.state) (hca : ∀ Q, KeysOf S a j Q s.cryptoCA → KeysOf S a j Q t.cryptoCA)
    (hA : Advances t l' u) : DealtMove S cfg a j s (l ++ l') u := by
  have hmove := DealtCa.advances hA ht
  refine ⟨hmove.ca, hsends.append hmove.sends, fun Q hd hk => ?_, fun hne => ?_⟩
  · exact hmove.old Q (hst.trans hd) (hca Q hk)
  · exact hmove.new (by rw [hst]; exact hne)

/-- **`startDKG`**, whether or not it throws, draws what the CA deals. -/
theorem DealtCa.start (h : DealtCa S cfg a j s)
    (ha : a j = (cfg.coeffs j).secretCoefficients) {out : Result p G1 G2}
    (hout : out = s.startDKG S (cfg.peers j) cfg.threshold cfg.n (cfg.secret j)
      (cfg.blinding j)) :
    DealtMove S cfg a j s out.sent out.state := by
  subst hout
  cases hr : computeCommitments S
      (generatePrivatePolynomial cfg.threshold (cfg.secret j) (cfg.blinding j)) with
  | none =>
    simp only [CAState.startDKG, hr]
    refine ⟨{ h with peers := ?_, coefficients := ?_ }, sends_nil, fun Q _ hk => hk,
      fun hne hd => absurd hd hne⟩
    · exact fun peers hp => (Option.some.inj hp).symm
    · intro c hc
      rw [← Option.some.inj hc, ha]
      rfl
  | some r =>
    obtain ⟨-, h1, h2, -⟩ := computeCommitments_eq S hr
    have hlaunch : DealtCa S cfg a j (launch S s (cfg.peers j) cfg.threshold cfg.n
        (generatePrivatePolynomial cfg.threshold (cfg.secret j) (cfg.blinding j)) r) := by
      refine { h with peers := ?_, published := ?_, coefficients := ?_ }
      · exact fun peers hp => (Option.some.inj hp).symm
      · intro r' hr'
        rw [← Option.some.inj hr', KeyPair, h1, h2, ha]
        exact ⟨rfl, rfl⟩
      · intro c hc
        rw [← Option.some.inj hc, ha]
        rfl
    exact DealtMove.of_advances sends_nil hlaunch rfl (fun Q hk => hk)
      (CAState.start_spec S s (cfg.peers j) cfg.threshold cfg.n _ _ hr)

end Keys

/-! ## Runs -/

section Runs

variable {p : ℕ} [Fact p.Prime] {G1 G2 GT : Type} [CommGroup G1] [CommGroup G2] [CommGroup GT]
  [ExpGroup p G1] [ExpGroup p G2] {S : CryptimeleonSetup p G1 G2 GT} {cfg : Config p}
  {a : ℤ → List (ZMod p)} {follows : ℤ → Bool} {net net' : Net p G1 G2}

omit [Fact p.Prime] [ExpGroup p G1] [ExpGroup p G2] in
/-- **One follower moves.** `net₀` is `net` with some messages removed. -/
theorem DealtNet.put (h : DealtNet S cfg a follows net) (net₀ : Net p G1 G2)
    (hca : net₀.ca = net.ca) (hfin : net₀.finalized = net.finalized)
    (hst : net₀.started = net.started)
    (hch : ∀ i x, ∀ m ∈ net₀.chan i x, m ∈ net.chan i x) {j : ℤ} {u : CAState p G1 G2}
    {l : List (Host × DkgMsg p G1 G2)} (hm : DealtMove S cfg a j (net.ca j) l u) :
    DealtNet S cfg a follows (net₀.put j u l) where
  ca k hk hf := by
    by_cases hkj : k = j
    · subst hkj
      rw [Net.put_ca_self]
      exact hm.ca
    · rw [Net.put_ca_ne _ hkj, hca]
      exact h.ca k hk hf
  started i hi := h.started i (hst ▸ hi)
  chan i k hf m hmem := by
    by_cases hij : i = j
    · subst hij
      rw [Net.put_chan_self] at hmem
      rcases List.mem_append.mp hmem with hmem | hmem
      · exact h.chan i k hf m (hch _ _ _ hmem)
      · exact hm.sends _ (mem_sentTo.mp hmem) k rfl
    · rw [Net.put_chan_ne _ hij] at hmem
      exact h.chan i k hf m (hch _ _ _ hmem)
  done k hk hf hd := by
    by_cases hkj : k = j
    · subst hkj
      rw [Net.put_ca_self] at hd ⊢
      by_cases hold : (net.ca k).state = .done
      · obtain ⟨Q, hQ, hkeys⟩ := h.done k hk hf hold
        refine ⟨Q, ?_, hm.old Q hold hkeys⟩
        rw [Net.put_finalized_old _ (by rw [hca]; exact hold), hfin, hQ]
      · refine ⟨_, ?_, hm.new hold hd⟩
        exact Net.put_finalized_new _ (by rw [hca]; exact hold) hd l
    · rw [Net.put_ca_ne _ hkj, hca] at hd ⊢
      rw [Net.put_finalized_ne _ hkj, hfin]
      exact h.done k hk hf hd

variable [DecidableEq G1]

/-- **Every step of the dealing keeps the invariant.** -/
theorem DealtNet.step (h : DealtNet S cfg a follows net)
    (ha : ∀ k ∈ cfg.ids, follows k = true → a k = (cfg.coeffs k).secretCoefficients)
    {e : Event p G1 G2} (hok : Deals S cfg a follows net e)
    (hst : net.step S cfg follows e = some net') : DealtNet S cfg a follows net' := by
  cases Net.step_cases hst with
  | startDKG i out hi hf hnone hout =>
    have hmove := (h.ca i hi hf).start (ha i hi hf) hout
    have hput := h.put net rfl rfl rfl (fun _ _ _ hm => hm) hmove
    refine { hput with started := fun k hk => ?_ }
    dsimp only at hk
    split at hk
    · rcases Finset.mem_insert.mp hk with rfl | hk
      · exact ⟨hi, hf⟩
      · exact h.started k hk
    · exact h.started k hk
  | connectionUp i k hs hk hki =>
    obtain ⟨hi, hf⟩ := h.started i hs
    obtain ⟨l₁, t, l₂, hC, hA, hsent⟩ := CAState.connect_spec (net.ca i) (cfg.host k)
    obtain ⟨ht, hl, hst', hca⟩ := (h.ca i hi hf).connects hC
    have hmove := DealtMove.of_advances hl ht hst' (fun Q hk => by rw [hca]; exact hk) hA
    rw [← hsent] at hmove
    have hput := h.put net rfl rfl rfl (fun _ _ _ hm => hm) hmove
    exact { hput with }
  | deliver i j m rest hj hf hch =>
    -- a follower's message is of the dealing since the channel carries nothing else
    have hm : Accepts S (net.ca j) m → Dealt S a j m := by
      intro hacc
      cases hfi : follows i with
      | false => exact hok hfi m (by rw [hch]; rfl) hacc
      | true => exact h.chan i j hfi m (by rw [hch]; exact List.mem_cons_self ..)
    obtain ⟨l₁, t, l₂, hR, hA, hsent⟩ := CAState.handle_spec S (net.ca j) m
    obtain ⟨ht, hl, hst', hca⟩ := (h.ca j hj hf).react hm hR
    have hmove := DealtMove.of_advances hl ht hst' (fun Q hk => by rw [hca]; exact hk) hA
    rw [← hsent] at hmove
    refine h.put (net.setChan i (cfg.host j) rest) rfl rfl rfl (fun x y m' hm' => ?_) hmove
    by_cases hxy : x = i ∧ y = cfg.host j
    · obtain ⟨rfl, rfl⟩ := hxy
      rw [Net.setChan_self] at hm'
      rw [hch]
      exact List.mem_cons_of_mem _ hm'
    · rwa [Net.setChan_ne _ hxy] at hm'
  | inject b j m hb =>
    refine ⟨h.ca, h.started, fun i k hf m' hm' => ?_, h.done⟩
    have hib : ¬ (i = b ∧ cfg.host k = cfg.host j) := by
      rintro ⟨rfl, -⟩
      exact absurd (hb.symm.trans hf) (by simp)
    rw [Net.setChan_ne _ hib] at hm'
    exact h.chan i k hf m' hm'

omit [Fact p.Prime] [ExpGroup p G1] [ExpGroup p G2] [DecidableEq G1] in
theorem dealtNet_init : DealtNet S cfg a follows (Net.init : Net p G1 G2) where
  ca j _ _ :=
    { caID := rfl
      peers := fun peers h => by simp [Net.init] at h
      published := fun r h => by simp [Net.init] at h
      coefficients := fun c h => by simp [Net.init] at h
      pubKeyG1 := fun k P h => by simp [Net.init] at h
      pubKeyG2 := fun k P h => by simp [Net.init] at h
      keys := fun k h => by simp [Net.init] at h
      shares := fun k v h => by simp [Net.init] at h }
  started i h := by simp [Net.init] at h
  chan i j _ m h := by simp [Net.init] at h
  done j _ _ h := by simp [Net.init] at h

omit [Fact p.Prime] [ExpGroup p G1] [ExpGroup p G2] [DecidableEq G1] in
/-- A sum of dealt polynomials has the degree of the dealing. -/
theorem degree_dealing_lt [Nontrivial (ZMod p)] (hlen : ∀ k, (a k).length ≤ cfg.threshold)
    (Q : Finset ℤ) : (∑ k ∈ Q, ofCoeffs (a k)).degree < (cfg.threshold : WithBot ℕ) := by
  rw [← mem_degreeLT]
  refine Submodule.sum_mem _ fun k _ => mem_degreeLT.mpr ?_
  calc (ofCoeffs (a k)).degree < ((a k).length : WithBot ℕ) := degree_ofCoeffs_lt _
    _ ≤ cfg.threshold := by exact_mod_cast hlen k

/-- **The master public key matches the shared secret** in every run of one
dealing: for every qualified set there is one polynomial of degree below the
threshold through the key shares of all followers that finished with that set,
and its value at `0` is the logarithm of both their master public keys. -/
theorem master_key_matches_secret (hlen : ∀ k, (a k).length ≤ cfg.threshold)
    (ha : ∀ k ∈ cfg.ids, follows k = true → a k = (cfg.coeffs k).secretCoefficients)
    (hrun : Run (Net.step S cfg follows) (Deals S cfg a follows) Net.init net) :
    (∀ j ∈ cfg.ids, follows j = true → (net.ca j).state = .done →
      (∃ Q, net.finalized j = some Q)
        ∧ ∃ msk : ZMod p, (net.ca j).cryptoCA.masterPubKeyG1 = some (zpw S.h1 msk)
          ∧ (net.ca j).cryptoCA.masterPubKeyG2 = some (zpw S.pairing.g2 msk))
      ∧ ∀ Q, ∃ F : Polynomial (ZMod p), F.degree < (cfg.threshold : WithBot ℕ)
        ∧ ∀ j ∈ cfg.ids, follows j = true → (net.ca j).state = .done →
          net.finalized j = some Q →
            (net.ca j).cryptoCA.secretKeyShare = some (F.eval (j : ZMod p))
              ∧ (net.ca j).cryptoCA.masterPubKeyG1 = some (zpw S.h1 (F.eval 0))
              ∧ (net.ca j).cryptoCA.masterPubKeyG2 = some (zpw S.pairing.g2 (F.eval 0)) := by
  have hI : DealtNet S cfg a follows net :=
    hrun.invariant dealtNet_init fun hI hok hst => hI.step ha hok hst
  refine ⟨fun j hj hf hd => ?_, fun Q => ⟨_, degree_dealing_lt hlen Q, ?_⟩⟩
  · obtain ⟨Q, hQ, -, h1, h2⟩ := hI.done j hj hf hd
    exact ⟨⟨Q, hQ⟩, _, h1, h2⟩
  · intro j hj hf hd hQ
    obtain ⟨Q', hQ', h1, h2, h3⟩ := hI.done j hj hf hd
    obtain rfl : Q' = Q := Option.some.inj (hQ'.symm.trans hQ)
    have hzero : (∑ k ∈ Q', ofCoeffs (a k)).eval 0 = ∑ k ∈ Q', (a k).headD 0 := by
      rw [eval_finsetSum]
      exact Finset.sum_congr rfl fun k _ => eval_zero_ofCoeffs (a k)
    have hshare : (∑ k ∈ Q', ofCoeffs (a k)).eval (j : ZMod p)
        = ∑ k ∈ Q', evaluatePolynomial (a k) j := by
      rw [eval_finsetSum]
      exact Finset.sum_congr rfl fun k _ => (evaluatePolynomial_eq (a k) j).symm
    rw [hzero, hshare]
    exact ⟨h1, h2, h3⟩

end Runs

/-- CA 2 is not under control but deals as the protocol says: CA 1 finishes on
a line whose value at `0` is the logarithm of its master keys. -/
theorem master_key_matches_secret_two :
    ∃ net, Run (Net.step (productSetup 5 2) (localConfig 5 2 2) (· = 1))
        (Deals (productSetup 5 2) (localConfig 5 2 2)
          (fun k => ((localConfig 5 2 2).coeffs k).secretCoefficients) (· = 1)) Net.init net
      ∧ ((net.ca 1).state = .done ∧ net.finalized 1 = some {1, 2})
      ∧ ∃ F : Polynomial (ZMod 5), F.degree < ((2 : ℕ) : WithBot ℕ)
        ∧ (net.ca 1).cryptoCA.secretKeyShare = some (F.eval ((1 : ℤ) : ZMod 5))
        ∧ (net.ca 1).cryptoCA.masterPubKeyG1 = some (zpw (productSetup 5 2).h1 (F.eval 0))
        ∧ (net.ca 1).cryptoCA.masterPubKeyG2
          = some (zpw (productSetup 5 2).pairing.g2 (F.eval 0)) := by
  have hdone : ∃ net, Run (Net.step (productSetup 5 2) (localConfig 5 2 2) (· = 1))
      (Deals (productSetup 5 2) (localConfig 5 2 2)
        (fun k => ((localConfig 5 2 2).coeffs k).secretCoefficients) (· = 1)) Net.init net
        ∧ (net.ca 1).state = .done ∧ net.finalized 1 = some {1, 2} :=
    exists_run (hashOfTwo ++ revealAndShare 2) (by decide)
  obtain ⟨net, hrun, hst, hfin⟩ := hdone
  have hlen : ∀ k, ((localConfig 5 2 2).coeffs k).secretCoefficients.length
      ≤ (localConfig 5 2 2).threshold := by
    intro k
    simp [Config.coeffs, generatePrivatePolynomial]
  obtain ⟨F, hdeg, hF⟩ := (master_key_matches_secret hlen (fun _ _ _ => rfl) hrun).2 {1, 2}
  exact ⟨net, hrun, ⟨hst, hfin⟩, F, hdeg, hF 1 (by decide) (by decide) hst hfin⟩

/-- **Keys without a secret.** CA 2 deals its polynomials but reveals the key in
the second group of other ones. CA 1 verifies hash and share, finishes, and its
two master keys have no common logarithm. -/
theorem keys_without_secret :
    ∃ net, Run (Net.step (productSetup 5 2) (localConfig 5 2 2) (· = 1)) (fun _ _ => True)
        Net.init net
      ∧ ((net.ca 1).state = .done ∧ net.finalized 1 = some {1, 2})
      ∧ ¬ ∃ msk : ZMod 5, (net.ca 1).cryptoCA.masterPubKeyG1
          = some (zpw (productSetup 5 2).h1 msk)
        ∧ (net.ca 1).cryptoCA.masterPubKeyG2 = some (zpw (productSetup 5 2).pairing.g2 msk) :=
  exists_run [.startDKG 1, .connectionUp 1 2,
    .inject 2 1 (.commitmentHash 2 (hashCommitments (productSetup 5 2)
      { (localConfig 5 2 2).content (productSetup 5 2) 2 with
        pubKeyG2 := ((localConfig 5 2 2).content (productSetup 5 2) 3).pubKeyG2 })),
    .deliver 2 1,
    .inject 2 1 (.reveal 2 { (localConfig 5 2 2).content (productSetup 5 2) 2 with
      pubKeyG2 := ((localConfig 5 2 2).content (productSetup 5 2) 3).pubKeyG2 }),
    .deliver 2 1, .inject 2 1 (shareMsg (localConfig 5 2 2) 2 1), .deliver 2 1] (by decide)

end Dittor.Dkg

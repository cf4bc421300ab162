import Dittor.Dkg.Invariant

/-!
# The channel between two CAs

`CaInv` is about one CA; this file is about two of them and what is on the way
from one to the other. `Link` says that everything the sender owes the receiver
for the phases it has left behind has been recorded or is in the channel, in
the order in which it was sent. That order is what makes a reveal find its hash
and a share its commitments: `Link.receive`.

`Move` is what a CA's event amounts to for everybody else: it forgets nothing,
sends nothing to itself, and every link of which it is the sender holds again
with what it sent appended. Reactions, completed phases, new connections and
`startDKG` are moves.
-/

namespace Dittor.Dkg

open Dittor.Lib Dittor.Crypto

section Link

variable {p : ℕ} {G1 G2 GT : Type} [CommGroup G1] [CommGroup G2] [CommGroup GT]
  (S : CryptimeleonSetup p G1 G2 GT) (cfg : Config p) (good : ℤ → Prop)

/-- What holds between CA `i` in state `si`, CA `j` in state `sj` and the
channel `l` from `i` to `j`. -/
structure Link (i j : ℤ) (si sj : CAState p G1 G2) (l : List (DkgMsg p G1 G2)) : Prop where
  order : Orderly S cfg good i j (i ∈ sj.receivedHashes) (i ∈ sj.receivedCommitments) l
  hash : j ∈ si.connectedPeerIds → i ∈ sj.receivedHashes ∨ helloMsg S cfg i ∈ l
  reveal : si.state ≠ .awaitingHashes → i ∈ sj.receivedCommitments ∨ revealMsg S cfg i ∈ l
  share : si.state = .awaitingShares ∨ si.state = .done →
    i ∈ sj.receivedSecretShares ∨ shareMsg cfg i j ∈ l

variable {S cfg good} {i j : ℤ} {si ti sj tj : CAState p G1 G2} {l l' : List (DkgMsg p G1 G2)}

/-- The receiver records more. -/
theorem Link.grow (h : Link S cfg good i j si sj l) (hg : Grows sj tj) :
    Link S cfg good i j si tj l where
  order := h.order.mono (hg.hashes i) (hg.commitments i)
  hash hc := (h.hash hc).imp_left (hg.hashes i)
  reveal hst := (h.reveal hst).imp_left (hg.commitments i)
  share hst := (h.share hst).imp_left (hg.shares i)

/-- The sender moves and sends `l'`. -/
theorem Link.extend (h : Link S cfg good i j si sj l)
    (ho : Orderly S cfg good i j (i ∈ sj.receivedHashes ∨ helloMsg S cfg i ∈ l)
      (i ∈ sj.receivedCommitments ∨ revealMsg S cfg i ∈ l) l')
    (hh : j ∈ ti.connectedPeerIds → j ∈ si.connectedPeerIds ∨ helloMsg S cfg i ∈ l')
    (hr : ti.state ≠ .awaitingHashes →
      si.state ≠ .awaitingHashes ∨ revealMsg S cfg i ∈ l')
    (hs : ti.state = .awaitingShares ∨ ti.state = .done →
      (si.state = .awaitingShares ∨ si.state = .done) ∨ shareMsg cfg i j ∈ l') :
    Link S cfg good i j ti sj (l ++ l') where
  order := h.order.append ho
  hash hc := by
    rcases hh hc with hc | hm
    · exact (h.hash hc).imp_right (List.mem_append_left _)
    · exact Or.inr (List.mem_append_right _ hm)
  reveal hst := by
    rcases hr hst with hst | hm
    · exact (h.reveal hst).imp_right (List.mem_append_left _)
    · exact Or.inr (List.mem_append_right _ hm)
  share hst := by
    rcases hs hst with hst | hm
    · exact (h.share hst).imp_right (List.mem_append_left _)
    · exact Or.inr (List.mem_append_right _ hm)

/-- A move that only sends complaints against ids that are not good. -/
theorem Link.complain (h : Link S cfg good i j si sj l) (hst : ti.state = si.state)
    (hc : ti.connectedPeerIds = si.connectedPeerIds)
    (hl : ∀ m ∈ l', ∃ k a reason, m = .complaint k a reason ∧ ¬ good a) :
    Link S cfg good i j ti sj (l ++ l') :=
  h.extend (orderly_complaints hl _ _) (fun hj => Or.inl (hc ▸ hj))
    (fun h' => Or.inl (hst ▸ h')) fun h' => Or.inl (hst ▸ h')

end Link

section Receive

variable {p : ℕ} [Fact p.Prime] {G1 G2 GT : Type} [CommGroup G1] [CommGroup G2] [CommGroup GT]
  [ExpGroup p G1] [DecidableEq G1] {S : CryptimeleonSetup p G1 G2 GT} {cfg : Config p}
  {good : ℤ → Prop} {Sh : ℤ → ℤ → ZMod p → Prop} {started : Prop}
  {i j : ℤ} {si s t : CAState p G1 G2} {m : DkgMsg p G1 G2} {l : List (DkgMsg p G1 G2)}
  {out : List (Host × DkgMsg p G1 G2)}

/-- What a good CA sends is admissible. -/
theorem Orderly.admissible (ht : 0 < cfg.threshold) (hi : i ∈ cfg.ids)
    (hSh : Sh i j (cfg.shareOf i j)) (hI : CaInv S cfg good Sh j started s)
    (h : Orderly S cfg good i j (i ∈ s.receivedHashes) (i ∈ s.receivedCommitments) (m :: l)) :
    Admissible S cfg good Sh s m := by
  obtain rfl := hI.caID
  cases m with
  | commitmentHash k x =>
    obtain ⟨⟨rfl, rfl⟩, -⟩ := h
    exact fun _ => ⟨hi, rfl⟩
  | reveal k r =>
    obtain ⟨⟨rfl, rfl, hh⟩, -⟩ := h
    exact fun _ => ⟨hh, rfl⟩
  | share k a b =>
    obtain ⟨⟨rfl, rfl, rfl, -⟩, -⟩ := h
    intro _ _
    exact ⟨verifyShare_honest S (cfg.computeCommitments_coeffs S ht k) (cfg.coeffs_length k) _,
      hSh⟩
  | complaint k a reason => exact h.1

/-- The receiver takes the oldest message of the channel and records it: a hash
always, a reveal because its hash came first, a share because its reveal did. -/
theorem Link.receive (ht : 0 < cfg.threshold) (hi : good i)
    (hI : CaInv S cfg good Sh j started s) (h : Link S cfg good i j si s (m :: l))
    (hR : Reacts S s m out t) : Link S cfg good i j si t l := by
  have hgrow := h.grow (reacts_grows S hR)
  -- a message of another kind at the head does not count for the three facts below
  have hhash : helloMsg S cfg i ≠ m → j ∈ si.connectedPeerIds →
      i ∈ t.receivedHashes ∨ helloMsg S cfg i ∈ l :=
    fun hne hc => or_mem_of_cons hne (hgrow.hash hc)
  have hreveal : revealMsg S cfg i ≠ m → si.state ≠ .awaitingHashes →
      i ∈ t.receivedCommitments ∨ revealMsg S cfg i ∈ l :=
    fun hne hst => or_mem_of_cons hne (hgrow.reveal hst)
  have hshare : shareMsg cfg i j ≠ m → si.state = .awaitingShares ∨ si.state = .done →
      i ∈ t.receivedSecretShares ∨ shareMsg cfg i j ∈ l :=
    fun hne hst => or_mem_of_cons hne (hgrow.share hst)
  have horder := hgrow.order
  cases hR with
  | hash k x =>
    obtain ⟨⟨rfl, -⟩, -⟩ := h.order
    have hk : k ∈ (s.putHash k x).receivedHashes := (AList.mem_insert _).mpr (Or.inl rfl)
    exact ⟨horder.2.mono (fun _ => hk) id, fun _ => Or.inl hk, hreveal (by simp [revealMsg]),
      hshare (by simp [shareMsg])⟩
  | @revealAccepted k r hh =>
    obtain ⟨⟨rfl, -, -⟩, -⟩ := h.order
    have hk : k ∈ (s.putReveal k r).receivedCommitments :=
      (AList.mem_insert _).mpr (Or.inl rfl)
    exact ⟨horder.2.mono id (fun _ => hk), hhash (by simp [helloMsg]), fun _ => Or.inl hk,
      hshare (by simp [shareMsg])⟩
  | @revealRejected k r _ hh =>
    obtain ⟨⟨rfl, rfl, hmem⟩, -⟩ := h.order
    obtain ⟨x, hx⟩ := lookup_of_mem hmem
    exact absurd (by rw [hx, (hI.hashes k x hi hx).2]; rfl) hh
  | @shareAccepted k a b C hq hC hv =>
    obtain ⟨⟨rfl, -, -, -⟩, -⟩ := h.order
    have hk : k ∈ (s.putShare k a).receivedSecretShares :=
      (AList.mem_insert _).mpr (Or.inl rfl)
    exact ⟨horder.2, hhash (by simp [helloMsg]), hreveal (by simp [revealMsg]),
      fun _ => Or.inl hk⟩
  | @shareIgnored k a b hign =>
    obtain ⟨⟨rfl, rfl, rfl, hmem⟩, -⟩ := h.order
    obtain ⟨C, hC⟩ := lookup_of_mem hmem
    rcases hign with hq | hnone | ⟨C', hC', hv⟩
    · exact absurd hi (hI.disqualified k hq)
    · exact absurd (hC.symm.trans hnone) (by simp)
    · have hok := verifyShare_honest S (cfg.computeCommitments_coeffs S ht k)
        (cfg.coeffs_length k) j
      rw [(hI.commitments k C' hi hC').2, hI.caID] at hv
      exact absurd (hok.symm.trans hv) (by simp)
  | @shareRejected k a b C _ hq hC hv =>
    obtain ⟨⟨rfl, rfl, rfl, hmem⟩, -⟩ := h.order
    have hok := verifyShare_honest S (cfg.computeCommitments_coeffs S ht k)
      (cfg.coeffs_length k) j
    rw [(hI.commitments k C hi hC).2, hI.caID] at hv
    exact absurd (hok.symm.trans hv) (by simp)
  | complaint k a reason =>
    exact ⟨horder.2, hhash (by simp [helloMsg]), hreveal (by simp [revealMsg]),
      hshare (by simp [shareMsg])⟩

end Receive

/-! ## Moves of one CA -/

section Move

variable {p : ℕ} {G1 G2 GT : Type} [CommGroup G1] [CommGroup G2] [CommGroup GT]
  (S : CryptimeleonSetup p G1 G2 GT) (cfg : Config p) (good : ℤ → Prop)

/-- CA `i` moves from `s` to `t` and sends `l`, as far as the others can tell. -/
structure Move (i : ℤ) (s : CAState p G1 G2) (l : List (Host × DkgMsg p G1 G2))
    (t : CAState p G1 G2) : Prop where
  grows : Grows s t
  self : sentTo l (cfg.host i) = []
  link : ∀ j ∈ cfg.ids, good j → j ≠ i → ∀ {sj : CAState p G1 G2} {ch : List (DkgMsg p G1 G2)},
    Link S cfg good i j s sj ch → Link S cfg good i j t sj (ch ++ sentTo l (cfg.host j))

variable {S cfg good} {Sh : ℤ → ℤ → ZMod p → Prop} {started : Prop} {i : ℤ}
  {s t u : CAState p G1 G2} {l l' : List (Host × DkgMsg p G1 G2)}

theorem Move.refl (s : CAState p G1 G2) : Move S cfg good i s [] s where
  grows := .of_eq rfl rfl rfl rfl
  self := rfl
  link j _ _ _ sj ch h := by
    rw [sentTo_nil, List.append_nil]
    exact h

theorem Move.trans (h : Move S cfg good i s l t) (h' : Move S cfg good i t l' u) :
    Move S cfg good i s (l ++ l') u where
  grows := ⟨fun k hk => h'.grows.hashes k (h.grows.hashes k hk),
    fun k hk => h'.grows.commitments k (h.grows.commitments k hk),
    fun k hk => h'.grows.shares k (h.grows.shares k hk),
    fun k hk => h'.grows.connected k (h.grows.connected k hk)⟩
  self := by rw [sentTo_append, h.self, h'.self, List.append_nil]
  link j hj hg hne sj ch hl := by
    rw [sentTo_append, ← List.append_assoc]
    exact h'.link j hj hg hne (h.link j hj hg hne hl)

omit [CommGroup G1] [CommGroup G2] in
/-- The reveals of the hash phase reach every peer. -/
theorem sentTo_revealMessages {j : ℤ} (hj : j ∈ cfg.ids) (r : Reveal G1 G2) :
    sentTo (s.revealMessages (cfg.peers i) r) (cfg.host j)
      = if j = i then [] else [.reveal s.caID r] := by
  have h := sentTo_peers cfg i j (fun _ => true) fun _ => (.reveal s.caID r : DkgMsg p G1 G2)
  rw [List.filter_true] at h
  rw [CAState.revealMessages, h]
  by_cases hji : j = i
  · simp [hji]
  · rw [if_pos ⟨hj, hji, rfl⟩, if_neg hji]

omit [CommGroup G1] [CommGroup G2] in
/-- The shares of the reveal phase reach every peer that is not disqualified. -/
theorem sentTo_shareMessages {j : ℤ} (hj : j ∈ cfg.ids) (c : Coefficients p) :
    sentTo (s.shareMessages (cfg.peers i) c) (cfg.host j)
      = if j = i ∨ j ∈ s.disqualifiedIds then []
        else [.share s.caID (evaluatePolynomial c.secretCoefficients j)
          (evaluatePolynomial c.blindingCoefficients j)] := by
  have h := sentTo_peers cfg i j (fun k => decide (k ∉ s.disqualifiedIds))
    fun k => (.share s.caID (evaluatePolynomial c.secretCoefficients k)
      (evaluatePolynomial c.blindingCoefficients k) : DkgMsg p G1 G2)
  rw [CAState.shareMessages, h]
  by_cases hji : j = i
  · simp [hji]
  · by_cases hq : j ∈ s.disqualifiedIds
    · simp [hq]
    · rw [if_pos ⟨hj, hji, by simpa using hq⟩, if_neg (by simp [hji, hq])]

omit [CommGroup G1] [CommGroup G2] in
/-- Complaints go to the peers only and name one id. -/
theorem mem_sentTo_complaints {j a : ℤ} {reason : String} {m : DkgMsg p G1 G2}
    (hp : s.hostToPeerId = none ∨ s.hostToPeerId = some (cfg.peers i))
    (hm : m ∈ sentTo (complaints s a reason) (cfg.host j)) :
    j ≠ i ∧ m = .complaint s.caID a reason := by
  rcases hp with hp | hp
  · rw [complaints, hp] at hm
    simp at hm
  · have h := sentTo_peers cfg i j (fun k => decide (k ≠ a))
      fun _ => (.complaint s.caID a reason : DkgMsg p G1 G2)
    have hl : complaints s a reason = s.complaintMessages (cfg.peers i) a reason := by
      rw [complaints, hp]
    rw [hl, CAState.complaintMessages, h] at hm
    split at hm
    next hc => exact ⟨hc.2.1, List.mem_singleton.mp hm⟩
    · simp at hm

theorem CaInv.peers_cases (hI : CaInv S cfg good Sh i started s) :
    s.hostToPeerId = none ∨ s.hostToPeerId = some (cfg.peers i) := by
  by_cases hs : started
  · exact Or.inr (hI.peers hs)
  · exact Or.inl (hI.fresh hs).1

/-- A reaction complains at most, and about an id that is not good. -/
theorem Reacts.move [DecidableEq G1] (hI : CaInv S cfg good Sh i started s)
    {m : DkgMsg p G1 G2} (hm : Admissible S cfg good Sh s m) (hR : Reacts S s m l t) :
    Move S cfg good i s l t := by
  have hgrow := reacts_grows S hR
  have hdis := (hI.react hm hR).disqualified
  -- the phase and the connections are untouched, and what is sent are complaints
  have hframe : t.state = s.state ∧ t.connectedPeerIds = s.connectedPeerIds := by
    cases hR <;> exact ⟨rfl, rfl⟩
  have hsent : l = [] ∨ ∃ a reason, l = complaints s a reason ∧ ¬ good a := by
    cases hR with
    | @revealRejected k r reason hh =>
      exact Or.inr ⟨k, reason, rfl, hdis k (Finset.mem_insert_self ..)⟩
    | @shareRejected k a b C reason hq hC hv =>
      exact Or.inr ⟨k, reason, rfl, hdis k (Finset.mem_insert_self ..)⟩
    | _ => exact Or.inl rfl
  have hcomp : ∀ j, ∀ m ∈ sentTo l (cfg.host j),
      j ≠ i ∧ ∃ k a reason, m = .complaint k a reason ∧ ¬ good a := by
    intro j m hm
    rcases hsent with rfl | ⟨a, reason, rfl, ha⟩
    · simp at hm
    · obtain ⟨hji, hme⟩ := mem_sentTo_complaints hI.peers_cases hm
      exact ⟨hji, _, a, reason, hme, ha⟩
  refine ⟨hgrow, List.eq_nil_iff_forall_not_mem.mpr fun m hm => (hcomp i m hm).1 rfl, ?_⟩
  intro j _ _ _ sj ch hl
  exact hl.complain hframe.1 hframe.2 fun m hm => (hcomp j m hm).2

/-- A completed phase sends the reveal, or the shares, or nothing. -/
theorem Advance.move (hI : CaInv S cfg good Sh i started s) (hi : i ∈ cfg.ids)
    (hA : Advance s l t) : Move S cfg good i s l t := by
  have hgrow := advance_grows hA
  obtain rfl := hI.caID
  cases hA with
  | @toReveals peers r hst hp hn hc hr =>
    have hs := hI.started_of_peers hp
    have hpe : peers = cfg.peers s.caID := Option.some.inj (hp.symm.trans (hI.peers hs))
    have hre : r = cfg.content S s.caID := Option.some.inj (hr.symm.trans (hI.published hs))
    subst hpe; subst hre
    refine ⟨hgrow, by rw [sentTo_revealMessages hi, if_pos rfl], ?_⟩
    intro j hj hg hne sj ch hl
    rw [sentTo_revealMessages hj, if_neg hne]
    have hhash := hl.hash (hI.allConnected hi hc j hj hne)
    exact hl.extend ⟨⟨rfl, rfl, hhash⟩, trivial⟩ (fun h => Or.inl h)
      (fun _ => Or.inr (List.mem_singleton_self _)) fun h => by simp [CAState.putReveal] at h
  | @toRevealsNull peers hst hp hr =>
    rw [hI.published (hI.started_of_peers hp)] at hr
    exact absurd hr (by simp)
  | @toShares peers c hst hn hp hc =>
    have hs := hI.started_of_peers hp
    have hpe : peers = cfg.peers s.caID := Option.some.inj (hp.symm.trans (hI.peers hs))
    have hce : c = cfg.coeffs s.caID :=
      Option.some.inj (hc.symm.trans (hI.coeffs hs (by rw [hst]; simp)))
    subst hpe; subst hce
    refine ⟨hgrow, by rw [sentTo_shareMessages hi, if_pos (Or.inl rfl)], ?_⟩
    intro j hj hg hne sj ch hl
    have hq : ¬ (j = s.caID ∨ j ∈ s.disqualifiedIds) := by
      rintro (h | h)
      · exact hne h
      · exact hI.disqualified j h hg
    rw [sentTo_shareMessages hj, if_neg hq]
    have hrev := hl.reveal (by rw [hst]; simp)
    exact hl.extend ⟨⟨rfl, rfl, rfl, hrev⟩, trivial⟩ (fun h => Or.inl h)
      (fun _ => Or.inl (by rw [hst]; simp)) fun _ => Or.inr (List.mem_singleton_self _)
  | toSharesNull hst hnull =>
    have hs := hI.started_of_state (by rw [hst]; simp)
    rcases hnull with h | h
    · rw [hI.peers hs] at h
      exact absurd h (by simp)
    · rw [hI.coeffs hs (by rw [hst]; simp)] at h
      exact absurd h (by simp)
  | finalize hst hn ht hf =>
    refine ⟨hgrow, rfl, fun j _ _ _ sj ch hl => ?_⟩
    exact hl.extend trivial (fun h => Or.inl h) (fun _ => Or.inl (by rw [hst]; simp))
      fun _ => Or.inl (Or.inl hst)
  | finalizeThrows hst hf =>
    refine ⟨hgrow, rfl, fun j _ _ _ sj ch hl => ?_⟩
    exact hl.extend trivial (fun h => Or.inl h) (fun h => Or.inl h) fun h => Or.inl h

/-- A whole chain of phases. -/
theorem Advances.move (hi : i ∈ cfg.ids) (hSh : Sh i i (cfg.shareOf i i))
    (hA : Advances s l t) (hI : CaInv S cfg good Sh i started s) :
    CaInv S cfg good Sh i started t ∧ Move S cfg good i s l t := by
  induction hA with
  | refl s => exact ⟨hI, .refl s⟩
  | head hA _ ih =>
    obtain ⟨hI', hm'⟩ := ih (hI.advance hi hSh hA)
    exact ⟨hI', (hA.move hI hi).trans hm'⟩

/-- One more connection, to a peer. -/
theorem CaInv.connect (hI : CaInv S cfg good Sh i started s) {k : ℤ}
    (hk : k ∈ cfg.ids ∧ k ≠ i) : CaInv S cfg good Sh i started (s.connect k) where
  __ := hI
  connected k' hk' := by
    rcases Finset.mem_insert.mp hk' with rfl | hk'
    · exact hk
    · exact hI.connected k' hk'
  connectedAll hst k' hk' hne := Finset.mem_insert_of_mem (hI.connectedAll hst k' hk' hne)

/-- The hash, and after the hash phase the reveal, goes out on a new connection. -/
theorem Connects.move (hI : CaInv S cfg good Sh i started s) (hs : started) {k : ℤ}
    (hk : k ∈ cfg.ids) (hne : k ≠ i) (hC : Connects s (cfg.host k) l t) :
    (CaInv S cfg good Sh i started t ∧ Move S cfg good i s l t) ∧ k ∈ t.connectedPeerIds := by
  obtain rfl := hI.caID
  have hlook := cfg.lookup_peers_host hk hne
  have hgrow : Grows s (s.connect k) :=
    ⟨fun _ h => h, fun _ h => h, fun _ h => h, fun _ h => Finset.mem_insert_of_mem h⟩
  -- only the channel to `k` receives something
  have hother : ∀ j, j ≠ k → j ∈ (s.connect k).connectedPeerIds → j ∈ s.connectedPeerIds :=
    fun j hjk hj => (Finset.mem_insert.mp hj).resolve_left hjk
  have hhost : ∀ {j}, j ≠ k → cfg.host k ≠ cfg.host j := fun hjk he => hjk (cfg.host_inj he).symm
  cases hC with
  | ignored hign =>
    rw [hI.peers hs, hI.myHash hs, hI.published hs, Option.bind_some, hlook] at hign
    simp at hign
  | @early peers k' h hst hp hk' hh =>
    have hpe : peers = cfg.peers s.caID := Option.some.inj (hp.symm.trans (hI.peers hs))
    subst hpe
    have hkk : k' = k := Option.some.inj (hk'.symm.trans hlook)
    have hhe : h = cfg.hashOf S s.caID := Option.some.inj (hh.symm.trans (hI.myHash hs))
    subst hkk; subst hhe
    refine ⟨⟨hI.connect ⟨hk, hne⟩, hgrow, ?_, ?_⟩, Finset.mem_insert_self ..⟩
    · rw [sentTo_cons_ne (hhost hne.symm), sentTo_nil]
    · intro j hj hg hji sj ch hl
      by_cases hjk : j = k'
      · subst hjk
        rw [sentTo_cons_self, sentTo_nil]
        exact hl.extend ⟨⟨rfl, rfl⟩, trivial⟩ (fun _ => Or.inr (List.mem_singleton_self _))
          (fun h => Or.inl h) fun h => Or.inl h
      · rw [sentTo_cons_ne (hhost hjk), sentTo_nil]
        exact hl.extend trivial (fun h => Or.inl (hother j hjk h)) (fun h => Or.inl h)
          fun h => Or.inl h
  | @late peers k' h r hst hp hk' hh hr =>
    have hpe : peers = cfg.peers s.caID := Option.some.inj (hp.symm.trans (hI.peers hs))
    subst hpe
    have hkk : k' = k := Option.some.inj (hk'.symm.trans hlook)
    have hhe : h = cfg.hashOf S s.caID := Option.some.inj (hh.symm.trans (hI.myHash hs))
    have hre : r = cfg.content S s.caID := Option.some.inj (hr.symm.trans (hI.published hs))
    subst hkk; subst hhe; subst hre
    refine ⟨⟨hI.connect ⟨hk, hne⟩, hgrow, ?_, ?_⟩, Finset.mem_insert_self ..⟩
    · rw [sentTo_cons_ne (hhost hne.symm), sentTo_cons_ne (hhost hne.symm), sentTo_nil]
    · intro j hj hg hji sj ch hl
      by_cases hjk : j = k'
      · subst hjk
        rw [sentTo_cons_self, sentTo_cons_self, sentTo_nil]
        exact hl.extend ⟨⟨rfl, rfl⟩, ⟨rfl, rfl, trivial⟩, trivial⟩
          (fun _ => Or.inr (List.mem_cons_self ..)) (fun h => Or.inl h) fun h => Or.inl h
      · rw [sentTo_cons_ne (hhost hjk), sentTo_cons_ne (hhost hjk), sentTo_nil]
        exact hl.extend trivial (fun h => Or.inl (hother j hjk h)) (fun h => Or.inl h)
          fun h => Or.inl h

/-- The assignments of `startDKG` establish the invariant of a started CA. -/
theorem CaInv.launch (hI : CaInv S cfg good Sh i started s) (hs : ¬ started)
    (hi : i ∈ cfg.ids) :
    CaInv S cfg good Sh i True
        (launch S s (cfg.peers i) cfg.threshold cfg.n (cfg.coeffs i) (cfg.content S i))
      ∧ Move S cfg good i s []
        (launch S s (cfg.peers i) cfg.threshold cfg.n (cfg.coeffs i) (cfg.content S i)) := by
  obtain rfl := hI.caID
  obtain ⟨-, hst⟩ := hI.fresh hs
  constructor
  · exact
      { hI with
        fresh := fun h => absurd trivial h
        peers := fun _ => rfl
        sizes := fun _ => ⟨rfl, rfl⟩
        published := fun _ => rfl
        myHash := fun _ => rfl
        coeffs := fun _ _ => rfl
        ownHash := fun _ => (AList.mem_insert _).mpr (Or.inl rfl)
        hashes := by
          intro k h hg hl
          rcases lookup_insert_cases hl with ⟨rfl, rfl⟩ | hl
          · exact ⟨hi, rfl⟩
          · exact hI.hashes k h hg hl }
  · refine ⟨⟨fun _ h => (AList.mem_insert _).mpr (Or.inr h), fun _ h => h, fun _ h => h,
      fun _ h => h⟩, rfl, fun j _ _ _ sj ch hl => ?_⟩
    exact hl.complain rfl rfl fun m hm => absurd hm (by simp)

end Move

end Dittor.Dkg

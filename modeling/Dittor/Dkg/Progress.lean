import Dittor.Dkg.Honest

/-!
# Honest runs do not get stuck

`handleShare` drops a share whose reveal is not recorded and nothing is ever
sent twice, so a single check forgotten at the right moment would leave a CA
waiting forever. None is: in an honest run every CA is `Settled` after every
event, which means that the phase it is in really lacks something
(`honest_settled`). What it lacks is, by the links of `Reachable.lean`, either
still to be sent by a CA in an earlier phase or in a channel. With all
connections up and all channels empty, the phases can be excluded one after the
other for all CAs at once: nobody waits for hashes, hence nobody for reveals,
hence nobody for shares (`honest_dkg_never_stuck`).
-/

namespace Dittor.Dkg

open Dittor.Lib Dittor.Crypto

section Ready

variable {p : ℕ} {G1 G2 GT : Type} [CommGroup G1] [CommGroup G2] [CommGroup GT]
  {S : CryptimeleonSetup p G1 G2 GT} {cfg : Config p} {j : ℤ} {started : Prop}
  {s : CAState p G1 G2}

theorem HonestCa.ready (hI : HonestCa S cfg j started s) (hs : started) : Ready s :=
  ⟨⟨_, hI.peers hs⟩, ⟨_, hI.published hs⟩, fun hst => ⟨_, hI.coeffs hs hst⟩⟩

theorem HonestCa.ready_of_peers (hI : HonestCa S cfg j started s)
    (hp : s.hostToPeerId ≠ none) : Ready s := by
  obtain ⟨peers, hpeers⟩ := Option.ne_none_iff_exists'.mp hp
  exact HonestCa.ready hI (hI.started_of_peers hpeers)

end Ready

section Settled

variable {p : ℕ} [Fact p.Prime] {G1 G2 GT : Type} [CommGroup G1] [CommGroup G2] [CommGroup GT]
  [ExpGroup p G1] [ExpGroup p G2] {S : CryptimeleonSetup p G1 G2 GT} {cfg : Config p}
  {j : ℤ} {started : Prop} {s : CAState p G1 G2}

/-- A settled CA in the share phase lacks a share: too few qualified CAs and an
exception of `finalizeDKG` are excluded. -/
theorem HonestCa.lacks_share (hI : HonestCa S cfg j started s) (hj : j ∈ cfg.ids)
    (ht : 0 < cfg.threshold) (htn : cfg.threshold ≤ cfg.n) (hset : Settled s)
    (hst : s.state = .awaitingShares) : s.accountedShares.card < s.n := by
  have hs := hI.started_of_state (by rw [hst]; simp)
  by_contra hn
  have hn' := Nat.le_of_not_lt hn
  rcases hset.shares hst with h | h | ⟨e, he⟩
  · exact hn h
  · have hlen := (HonestCa.qualifiedIds_perm hI hs hn').length_eq
    rw [cfg.ids_length] at hlen
    have := (hI.sizes hs).2
    omega
  · rw [HonestCa.finalize_eq hI hs hj ht hn'] at he
    simp at he

variable [DecidableEq G1]

/-- The oldest message of a channel leaves its receiver settled. -/
theorem HonestCa.handle_settled (hI : HonestCa S cfg j started s) (hj : j ∈ cfg.ids)
    (ht : 0 < cfg.threshold) (htn : cfg.threshold ≤ cfg.n) (hset : Settled s) {i : ℤ}
    {m : DkgMsg p G1 G2} {l : List (DkgMsg p G1 G2)}
    (ho : Orderly S cfg (fun _ => True) i j (i ∈ s.receivedHashes)
      (i ∈ s.receivedCommitments) (m :: l)) :
    Settled (s.handle S m).state := by
  cases m with
  | commitmentHash k x => exact CAState.handleHash_settled S (HonestCa.ready_of_peers hI) hset k x
  | reveal k r =>
    obtain ⟨⟨rfl, rfl, hmem⟩, -⟩ := ho
    obtain ⟨x, hx⟩ := lookup_of_mem hmem
    refine CAState.handleReveal_settled S ?_ hset ?_ (HonestCa.lacks_share hI hj ht htn hset)
    · intro hst
      exact HonestCa.ready hI (hI.started_of_state (by rw [hst]; simp))
    · rw [hx, (hI.hashes k x trivial hx).2]
      rfl
  | share k a b =>
    obtain ⟨⟨rfl, rfl, rfl, hmem⟩, -⟩ := ho
    obtain ⟨C, hC⟩ := lookup_of_mem hmem
    refine CAState.handleShare_settled S hset ?_ hC ?_
    · rw [HonestCa.disqualified_empty hI]
      simp
    · rw [(hI.commitments k C trivial hC).2, hI.caID]
      exact verifyShare_honest S (cfg.computeCommitments_coeffs S ht k) (cfg.coeffs_length k) j
  | complaint k a reason => exact absurd trivial ho.1

/-- **Every step leaves every CA settled.** -/
theorem HonestNet.step_settled {net net' : Net p G1 G2} (h : HonestNet S cfg net)
    (ht : 0 < cfg.threshold) (htn : cfg.threshold ≤ cfg.n)
    (hset : ∀ j ∈ cfg.ids, Settled (net.ca j)) {e : Event p G1 G2}
    (hst : net.step S cfg (fun _ => true) e = some net') :
    ∀ j ∈ cfg.ids, Settled (net'.ca j) := by
  intro j hj
  have hI := h.ca j hj trivial
  rcases Net.step_ca hst j with hsame | ⟨-, -, hnone, hca⟩ | ⟨k, -, -, hca⟩ |
    ⟨i, m, rest, -, -, hch, hca⟩
  · rw [hsame]
    exact hset j hj
  · rw [hca]
    refine CAState.start_settled S ?_ _ _ _ _ _ (cfg.computeCommitments_coeffs S ht j)
    by_cases hs : j ∈ net.started
    · rw [hI.peers hs] at hnone
      exact absurd hnone (by simp)
    · exact (hI.fresh hs).2
  · rw [hca]
    exact CAState.connect_settled (HonestCa.ready_of_peers hI) (hset j hj) _
  · rw [hca]
    by_cases hsil : i ∉ cfg.ids ∨ i = j
    · rw [h.silent i j trivial hsil] at hch
      exact absurd hch (by simp)
    · obtain ⟨hi, hij⟩ := not_or.mp hsil
      have hl := h.link i (not_not.mp hi) trivial j hj trivial hij
      rw [hch] at hl
      exact HonestCa.handle_settled hI hj ht htn (hset j hj) hl.order

theorem honest_settled {net : Net p G1 G2} (ht : 0 < cfg.threshold)
    (htn : cfg.threshold ≤ cfg.n)
    (hrun : Run (Net.step S cfg fun _ => true) (fun _ _ => True) Net.init net) :
    HonestNet S cfg net ∧ ∀ j ∈ cfg.ids, Settled (net.ca j) := by
  refine hrun.invariant
    (I := fun net => HonestNet S cfg net ∧ ∀ j ∈ cfg.ids, Settled (net.ca j))
    ⟨netInv_init .., fun j _ => ⟨fun _ peers hp => ?_, fun h => ?_, fun h => ?_⟩⟩ ?_
  · simp [Net.init] at hp
  · simp [Net.init] at h
  · simp [Net.init] at h
  · rintro net net' e ⟨hI, hset⟩ _ hst
    exact ⟨hI.step ht hst, hI.step_settled ht htn hset hst⟩

end Settled

/-! ## Counting -/

section Count

variable {p : ℕ} (cfg : Config p)

/-- A set that holds every id has at least `n` elements. -/
theorem Config.n_le_card {t : Finset ℤ} (h : ∀ k ∈ cfg.ids, k ∈ t) : cfg.n ≤ t.card := by
  rw [← cfg.ids_card]
  exact Finset.card_le_card fun k hk => h k (List.mem_toFinset.mp hk)

/-- A set that holds every other id has at least as many elements as there are peers. -/
theorem Config.peers_le_card {j : ℤ} (hj : j ∈ cfg.ids) {t : Finset ℤ}
    (h : ∀ k ∈ cfg.ids, k ≠ j → k ∈ t) : (cfg.peers j).length ≤ t.card := by
  have hsub : cfg.ids.toFinset.erase j ⊆ t := by
    intro k hk
    obtain ⟨hkj, hki⟩ := Finset.mem_erase.mp hk
    exact h k (List.mem_toFinset.mp hki) hkj
  have hcard := Finset.card_le_card hsub
  rw [Finset.card_erase_of_mem (List.mem_toFinset.mpr hj), cfg.ids_card] at hcard
  have := cfg.peers_length hj
  omega

end Count

/-! ## A threshold of zero -/

section Zero

variable {p : ℕ} {G1 G2 GT : Type} [CommGroup G1] [CommGroup G2] [CommGroup GT]
  [DecidableEq G1] {S : CryptimeleonSetup p G1 G2 GT} {cfg : Config p}

omit [DecidableEq G1] in
theorem advances_hash {s t : CAState p G1 G2} {l : List (Host × DkgMsg p G1 G2)}
    (hA : Advances s l t) : t.myCommitmentHash = s.myCommitmentHash := by
  induction hA with
  | refl => rfl
  | head hA _ ih =>
    rw [ih]
    cases hA <;> rfl

/-- With a threshold of zero `computeCommitments` throws before any connection
is opened, so no CA counts as started. -/
theorem started_empty_of_threshold_zero (ht : cfg.threshold = 0) {follows : ℤ → Bool}
    {net : Net p G1 G2}
    (hrun : Run (Net.step S cfg follows) (fun _ _ => True) Net.init net) :
    net.started = ∅ ∧ ∀ k, (net.ca k).myCommitmentHash = none := by
  refine hrun.invariant
    (I := fun net => net.started = ∅ ∧ ∀ k, (net.ca k).myCommitmentHash = none)
    ⟨rfl, fun _ => rfl⟩ ?_
  rintro net net' e ⟨hempty, hnone⟩ _ hst
  -- with threshold zero the polynomial has no coefficient and `startDKG` throws
  have hstart : ∀ k, ((net.ca k).startDKG S (cfg.peers k) cfg.threshold cfg.n (cfg.secret k)
      (cfg.blinding k)).state.myCommitmentHash = none := by
    intro k
    rw [ht]
    exact hnone k
  constructor
  · cases Net.step_cases hst with
    | startDKG i out _ _ _ hout =>
      have hout' : out.state.myCommitmentHash = none := by
        rw [hout]
        exact hstart i
      rw [hout']
      exact hempty
    | connectionUp i j hs _ _ =>
      rw [hempty] at hs
      exact absurd hs (by simp)
    | deliver i j m rest _ _ _ => exact hempty
    | inject b j m _ => exact hempty
  · intro k
    rcases Net.step_ca hst k with hsame | ⟨-, -, -, hca⟩ | ⟨j, -, ⟨hs, -⟩, -⟩ |
      ⟨i, m, rest, -, -, -, hca⟩
    · rw [hsame]
      exact hnone k
    · rw [hca]
      exact hstart k
    · rw [hempty] at hs
      exact absurd hs (by simp)
    · obtain ⟨l₁, t, l₂, hR, hA, -⟩ := CAState.handle_spec S (net.ca k) m
      rw [hca, advances_hash hA, ← hnone k]
      cases hR <;> rfl

end Zero

/-! ## At rest -/

section Rest

variable {p : ℕ} {G1 G2 GT : Type} [CommGroup G1] [CommGroup G2] [CommGroup GT]
  {S : CryptimeleonSetup p G1 G2 GT} {cfg : Config p} {net : Net p G1 G2}

/-- Every CA has started, every connection is up and every channel is empty. -/
structure Quiescent (cfg : Config p) (net : Net p G1 G2) : Prop where
  started : ∀ i ∈ cfg.ids, i ∈ net.started
  up : ∀ i ∈ cfg.ids, ∀ j ∈ cfg.ids, i ≠ j → (i, j) ∈ net.up
  empty : ∀ i ∈ cfg.ids, ∀ j ∈ cfg.ids, net.chan i (cfg.host j) = []

/-- At rest nobody waits for a hash. -/
theorem HonestNet.past_hashes (h : HonestNet S cfg net) (hq : Quiescent cfg net)
    (hset : ∀ j ∈ cfg.ids, Settled (net.ca j)) {j : ℤ} (hj : j ∈ cfg.ids) :
    (net.ca j).state ≠ .awaitingHashes := by
  intro hst
  have hI := h.ca j hj trivial
  have hs := hq.started j hj
  have hhash : ∀ k ∈ cfg.ids, k ∈ (net.ca j).receivedHashes.keys.toFinset := by
    intro k hk
    rw [List.mem_toFinset, ← AList.mem_keys]
    by_cases hkj : k = j
    · rw [hkj]
      exact hI.ownHash hs
    · have hl := h.link k hk trivial j hj trivial hkj
      rw [hq.empty k hk j hj] at hl
      exact (hl.hash (h.up (k, j) (hq.up k hk j hj hkj))).resolve_right (by simp)
  have hconn : ∀ k ∈ cfg.ids, k ≠ j → k ∈ (net.ca j).connectedPeerIds := by
    intro k hk hkj
    exact h.up (j, k) (hq.up j hj k hk hkj.symm)
  have hn := cfg.n_le_card hhash
  have hkeys := (net.ca j).receivedHashes.keys.toFinset_card_le
  have hc := cfg.peers_le_card hj hconn
  rcases (hset j hj).hashes hst _ (hI.peers hs) with hlt | hlt
  · have := (hI.sizes hs).1
    omega
  · omega

/-- Hence nobody waits for a reveal. -/
theorem HonestNet.past_reveals (h : HonestNet S cfg net) (hq : Quiescent cfg net)
    (hset : ∀ j ∈ cfg.ids, Settled (net.ca j)) {j : ℤ} (hj : j ∈ cfg.ids) :
    (net.ca j).state ≠ .awaitingReveals := by
  intro hst
  have hI := h.ca j hj trivial
  have hrev : ∀ k ∈ cfg.ids, k ∈ (net.ca j).accountedReveals := by
    intro k hk
    refine Finset.mem_union_left _ (List.mem_toFinset.mpr (AList.mem_keys.mp ?_))
    by_cases hkj : k = j
    · rw [hkj]
      exact hI.ownReveal (by rw [hst]; simp)
    · have hl := h.link k hk trivial j hj trivial hkj
      rw [hq.empty k hk j hj] at hl
      exact (hl.reveal (h.past_hashes hq hset hk)).resolve_right (by simp)
  have hn := cfg.n_le_card hrev
  have := (hset j hj).reveals hst
  have := (hI.sizes (hq.started j hj)).1
  omega

end Rest

section Progress

variable {p : ℕ} [Fact p.Prime] {G1 G2 GT : Type} [CommGroup G1] [CommGroup G2] [CommGroup GT]
  [ExpGroup p G1] [ExpGroup p G2] [DecidableEq G1] {S : CryptimeleonSetup p G1 G2 GT}
  {cfg : Config p} {net : Net p G1 G2}

/-- **Honest runs never get stuck.** Once every CA has called `startDKG`, every
connection is up and no message is on its way, every CA is `DONE`. -/
theorem honest_dkg_never_stuck (htn : cfg.threshold ≤ cfg.n)
    (hrun : Run (Net.step S cfg fun _ => true) (fun _ _ => True) Net.init net)
    (hq : Quiescent cfg net) : ∀ j ∈ cfg.ids, (net.ca j).state = .done := by
  intro j hj
  rcases Nat.eq_zero_or_pos cfg.threshold with ht | ht
  · have hs := hq.started j hj
    rw [(started_empty_of_threshold_zero ht hrun).1] at hs
    exact absurd hs (by simp)
  · obtain ⟨h, hset⟩ := honest_settled ht htn hrun
    have hI := h.ca j hj trivial
    cases hst : (net.ca j).state with
    | awaitingHashes => exact absurd hst (h.past_hashes hq hset hj)
    | awaitingReveals => exact absurd hst (h.past_reveals hq hset hj)
    | done => rfl
    | awaitingShares =>
      -- with empty channels every share that was sent has arrived
      have hsh : ∀ k ∈ cfg.ids, k ∈ (net.ca j).accountedShares := by
        intro k hk
        refine Finset.mem_union_left _ (List.mem_toFinset.mpr (AList.mem_keys.mp ?_))
        by_cases hkj : k = j
        · rw [hkj]
          exact hI.ownShare (Or.inl hst)
        · have hl := h.link k hk trivial j hj trivial hkj
          rw [hq.empty k hk j hj] at hl
          have hphase : (net.ca k).state = .awaitingShares ∨ (net.ca k).state = .done := by
            cases hk' : (net.ca k).state with
            | awaitingHashes => exact absurd hk' (h.past_hashes hq hset hk)
            | awaitingReveals => exact absurd hk' (h.past_reveals hq hset hk)
            | awaitingShares => exact Or.inl rfl
            | done => exact Or.inr rfl
          exact (hl.share hphase).resolve_right (by simp)
      have hn := cfg.n_le_card hsh
      have hlack := HonestCa.lacks_share hI hj ht htn (hset j hj) hst
      have := (hI.sizes (hq.started j hj)).1
      omega

end Progress

/-- Two CAs whose messages have all been delivered are done. -/
theorem honest_dkg_never_stuck_two :
    ∃ net, Run (Net.step (productSetup 5 2) (localConfig 5 2 2) fun _ => true)
        (fun _ _ => True) Net.init net
      ∧ Quiescent (localConfig 5 2 2) net
      ∧ ∀ j ∈ (localConfig 5 2 2).ids, (net.ca j).state = .done := by
  have hrest : ∃ net, Run (Net.step (productSetup 5 2) (localConfig 5 2 2) fun _ => true)
      (fun _ _ => True) Net.init net
        ∧ (∀ i ∈ (localConfig 5 2 2).ids, i ∈ net.started)
        ∧ (∀ i ∈ (localConfig 5 2 2).ids, ∀ j ∈ (localConfig 5 2 2).ids, i ≠ j →
          (i, j) ∈ net.up)
        ∧ ∀ i ∈ (localConfig 5 2 2).ids, ∀ j ∈ (localConfig 5 2 2).ids,
          (net.chan i ((localConfig 5 2 2).host j)).length = 0 :=
    exists_run (twoCaEvents ..) (by decide)
  obtain ⟨net, hrun, hs, hup, hempty⟩ := hrest
  have hq : Quiescent (localConfig 5 2 2) net :=
    ⟨hs, hup, fun i hi j hj => List.length_eq_zero_iff.mp (hempty i hi j hj)⟩
  exact ⟨net, hrun, hq, honest_dkg_never_stuck (by decide) hrun hq⟩

end Dittor.Dkg

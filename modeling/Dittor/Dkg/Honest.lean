import Dittor.Dkg.Reachable

/-!
# Distributed key generation when everybody follows the protocol

The invariant of `Reachable.lean` with every id good: nobody is ever
disqualified, whatever the order in which hashes, reveals and shares arrive. A
CA that finishes has therefore counted the shares of exactly the ids `1..n`,
each of them the value of the sender's polynomial at its own id, and the keys
it derives are those of the joint polynomial (`honest_dkg_correct`). That the
CAs do finish is in `Progress.lean`.
-/

namespace Dittor.Dkg

open Dittor.Lib Dittor.Crypto

section Content

variable {p : ℕ} (cfg : Config p)

/-- `f_i`, the secret polynomial of CA `i`. -/
noncomputable def Config.poly (i : ℤ) : Polynomial (ZMod p) :=
  ofCoeffs (cfg.coeffs i).secretCoefficients

/-- The master secret: the joint polynomial at `0`. -/
noncomputable def Config.masterSecret : ZMod p :=
  (cfg.ids.map fun i => (cfg.poly i).eval 0).sum

variable {G1 G2 GT : Type} [CommGroup G1] [CommGroup G2] [CommGroup GT]
  (S : CryptimeleonSetup p G1 G2 GT)

theorem Config.shareOf_eq [Fact p.Prime] (i j : ℤ) :
    cfg.shareOf i j = (cfg.poly i).eval (j : ZMod p) := by
  rw [Config.shareOf, evaluatePolynomial_eq, Config.poly]

/-- The public keys of CA `i` hold the constant coefficient of its polynomial. -/
theorem Config.content_keys (ht : 0 < cfg.threshold) (i : ℤ) :
    (cfg.content S i).pubKeyG1 = zpw S.h1 ((cfg.poly i).eval 0)
      ∧ (cfg.content S i).pubKeyG2 = zpw S.pairing.g2 ((cfg.poly i).eval 0) := by
  obtain ⟨-, h1, h2, -⟩ := computeCommitments_eq S (cfg.computeCommitments_coeffs S ht i)
  rw [h1, h2, Config.poly, eval_zero_ofCoeffs]
  exact ⟨rfl, rfl⟩

end Content

/-! ## The state of one CA -/

section Ca

variable {p : ℕ} {G1 G2 GT : Type} [CommGroup G1] [CommGroup G2] [CommGroup GT]
  (S : CryptimeleonSetup p G1 G2 GT) (cfg : Config p)

/-- The invariant with every id good and every recorded share the sender's. -/
abbrev HonestCa (j : ℤ) (started : Prop) (s : CAState p G1 G2) : Prop :=
  CaInv S cfg (fun _ => True) (fun k j v => v = cfg.shareOf k j) j started s

abbrev HonestNet (net : Net p G1 G2) : Prop :=
  NetInv S cfg (fun _ => True) (fun k j v => v = cfg.shareOf k j) net

/-- What a finished CA holds. -/
def Finished (j : ℤ) (s : CAState p G1 G2) : Prop :=
  s.state = .done →
    s.cryptoCA.secretKeyShare = some (cfg.ids.map fun i => (cfg.poly i).eval (j : ZMod p)).sum
      ∧ s.cryptoCA.masterPubKeyG1 = some (zpw S.h1 cfg.masterSecret)
      ∧ s.cryptoCA.masterPubKeyG2 = some (zpw S.pairing.g2 cfg.masterSecret)

variable {S cfg} {j : ℤ} {started : Prop} {s t : CAState p G1 G2}
  {l : List (Host × DkgMsg p G1 G2)}

theorem HonestCa.disqualified_empty (hI : HonestCa S cfg j started s) :
    s.disqualifiedIds = ∅ :=
  Finset.eq_empty_of_forall_notMem fun k hk => hI.disqualified k hk trivial

/-- Every recorded reveal is of one of the ids, and with enough shares
recorded, they are the shares of all of them. -/
theorem HonestCa.keys_eq_ids (hI : HonestCa S cfg j started s) (hs : started)
    (hn : s.n ≤ s.accountedShares.card) :
    s.receivedSecretShares.keys.toFinset = cfg.ids.toFinset
      ∧ s.receivedCommitments.keys.toFinset = cfg.ids.toFinset := by
  have hcomm : s.receivedCommitments.keys.toFinset ⊆ cfg.ids.toFinset := by
    intro k hk
    obtain ⟨C, hC⟩ := lookup_of_mem (AList.mem_keys.mpr (List.mem_toFinset.mp hk))
    exact List.mem_toFinset.mpr (hI.commitments k C trivial hC).1
  have hsh : s.receivedSecretShares.keys.toFinset ⊆ s.receivedCommitments.keys.toFinset := by
    intro k hk
    exact List.mem_toFinset.mpr (AList.mem_keys.mp
      (hI.shareRevealed k (AList.mem_keys.mpr (List.mem_toFinset.mp hk))))
  rw [CAState.accountedShares, hI.disqualified_empty, Finset.union_empty, (hI.sizes hs).1] at hn
  have heq := cfg.eq_ids_of_card (hsh.trans hcomm) hn
  exact ⟨heq, Finset.Subset.antisymm hcomm (heq ▸ hsh)⟩

/-- The qualified ids are all ids, in some order. -/
theorem HonestCa.qualifiedIds_perm (hI : HonestCa S cfg j started s) (hs : started)
    (hn : s.n ≤ s.accountedShares.card) : s.qualifiedIds.Perm cfg.ids := by
  have hall : s.qualifiedIds = s.receivedCommitments.keys := by
    rw [CAState.qualifiedIds, hI.disqualified_empty]
    simp
  rw [hall]
  exact List.perm_of_nodup_nodup_toFinset_eq s.receivedCommitments.nodupKeys cfg.ids_nodup
    (hI.keys_eq_ids hs hn).2

/-- A reaction changes neither the phase nor the keys. -/
theorem reacts_finished [DecidableEq G1] {m : DkgMsg p G1 G2} (hR : Reacts S s m l t)
    (hf : Finished S cfg j s) : Finished S cfg j t := by
  cases hR <;> exact hf

/-- So does a connection. -/
theorem connects_finished {target : Host} (hC : Connects s target l t)
    (hf : Finished S cfg j s) : Finished S cfg j t := by
  cases hC <;> exact hf

end Ca

section Keys

variable {p : ℕ} [Fact p.Prime] {G1 G2 GT : Type} [CommGroup G1] [CommGroup G2] [CommGroup GT]
  [ExpGroup p G1] [ExpGroup p G2] {S : CryptimeleonSetup p G1 G2 GT} {cfg : Config p}
  {j : ℤ} {started : Prop} {s t : CAState p G1 G2} {l : List (Host × DkgMsg p G1 G2)}

/-- **The end of the share phase** in an honest run: `finalizeDKG` does not
throw, and the keys are those of the joint polynomial. -/
theorem HonestCa.finalize_eq (hI : HonestCa S cfg j started s) (hs : started)
    (hj : j ∈ cfg.ids) (ht : 0 < cfg.threshold) (hn : s.n ≤ s.accountedShares.card) :
    s.finalize =
      ({ s.cryptoCA with
          secretKeyShare := some (cfg.ids.map fun i => (cfg.poly i).eval (j : ZMod p)).sum
          masterPubKeyG1 := some (zpw S.h1 cfg.masterSecret)
          masterPubKeyG2 := some (zpw S.pairing.g2 cfg.masterSecret)
          coefficients := none }, none) := by
  have hperm := hI.qualifiedIds_perm hs hn
  have hids : ∀ id ∈ s.qualifiedIds, id ∈ s.receivedCommitments := fun id hid =>
    AList.mem_keys.mpr (List.mem_of_mem_filter hid)
  -- no entry is `null`: shares, then the keys in both groups
  have hsh : s.qualifiedIds.map (fun id => s.receivedSecretShares.lookup id)
      = (s.qualifiedIds.map fun id => (cfg.poly id).eval (j : ZMod p)).map some := by
    refine map_lookup (fun id hid => ?_) fun id v hv => ?_
    · have hmem : id ∈ s.receivedSecretShares.keys.toFinset := by
        rw [(hI.keys_eq_ids hs hn).1]
        exact List.mem_toFinset.mpr (hperm.subset hid)
      exact AList.mem_keys.mpr (List.mem_toFinset.mp hmem)
    · rw [hI.shares id v trivial hv, cfg.shareOf_eq]
  have hk1 : s.qualifiedIds.map (fun id => s.receivedPubKeyG1.lookup id)
      = (s.qualifiedIds.map fun id => zpw S.h1 ((cfg.poly id).eval 0)).map some := by
    refine map_lookup (fun id hid => (hI.keysG1 id).mpr (hids id hid)) fun id P hP => ?_
    rw [hI.pubKeyG1 id P trivial hP, (cfg.content_keys S ht id).1]
  have hk2 : s.qualifiedIds.map (fun id => s.receivedPubKeyG2.lookup id)
      = (s.qualifiedIds.map fun id => zpw S.pairing.g2 ((cfg.poly id).eval 0)).map some := by
    refine map_lookup (fun id hid => (hI.keysG2 id).mpr (hids id hid)) fun id P hP => ?_
    rw [hI.pubKeyG2 id P trivial hP, (cfg.content_keys S ht id).2]
  have hne : s.qualifiedIds ≠ [] := List.ne_nil_of_mem (hperm.symm.subset hj)
  rw [CAState.finalize, hsh, hk1, hk2,
    finalizeDKG_some _ (by simpa using hne) (by simpa using hne), prod_zpw, prod_zpw,
    (hperm.map _).sum_eq, (hperm.map _).sum_eq]
  rfl

/-- A phase ends in `DONE` only through `finalizeDKG`. -/
theorem HonestCa.advance_finished (hI : HonestCa S cfg j started s) (hj : j ∈ cfg.ids)
    (ht : 0 < cfg.threshold) (hA : Advance s l t) :
    Finished S cfg j t := by
  intro hst
  cases hA with
  | toReveals => simp [CAState.putReveal] at hst
  | toRevealsNull => simp at hst
  | toShares => simp [CAState.putShare] at hst
  | toSharesNull => simp at hst
  | finalize hst' hn _ hfin =>
    have hs := hI.started_of_state (by rw [hst']; simp)
    rw [hI.finalize_eq hs hj ht hn] at hfin
    obtain ⟨rfl, -⟩ := Prod.mk.inj hfin
    exact ⟨rfl, rfl, rfl⟩
  | finalizeThrows hst' _ =>
    rw [hst'] at hst
    simp at hst

theorem HonestCa.advances_finished (hj : j ∈ cfg.ids) (ht : 0 < cfg.threshold)
    (hA : Advances s l t) (hI : HonestCa S cfg j started s) (hf : Finished S cfg j s) :
    Finished S cfg j t := by
  induction hA with
  | refl => exact hf
  | head hA _ ih => exact ih (hI.advance hj rfl hA) (hI.advance_finished hj ht hA)

end Keys

/-! ## Runs -/

section Runs

variable {p : ℕ} [Fact p.Prime] {G1 G2 GT : Type} [CommGroup G1] [CommGroup G2] [CommGroup GT]
  [ExpGroup p G1] [DecidableEq G1] {S : CryptimeleonSetup p G1 G2 GT} {cfg : Config p}
  {net net' : Net p G1 G2}

theorem HonestNet.step (h : HonestNet S cfg net) (ht : 0 < cfg.threshold) {e : Event p G1 G2}
    (hst : net.step S cfg (fun _ => true) e = some net') : HonestNet S cfg net' := by
  refine NetInv.step h ht (fun _ _ => rfl) (fun _ _ _ => trivial) (fun _ _ _ => rfl) ?_ hst
  cases e with
  | deliver i j => exact fun hn => absurd trivial hn
  | _ => trivial

theorem HonestNet.react (h : HonestNet S cfg net) (ht : 0 < cfg.threshold) {i j : ℤ}
    (hj : j ∈ cfg.ids) {m : DkgMsg p G1 G2} {rest : List (DkgMsg p G1 G2)}
    (hch : net.chan i (cfg.host j) = m :: rest) {l : List (Host × DkgMsg p G1 G2)}
    {t : CAState p G1 G2} (hR : Reacts S (net.ca j) m l t) :
    HonestCa S cfg j (j ∈ net.started) t :=
  (h.ca j hj trivial).react (h.admissible ht (fun _ => rfl) hj trivial trivial hch) hR

variable [ExpGroup p G2]

/-- One step keeps the keys of the finished CAs right. -/
theorem HonestNet.step_finished (h : HonestNet S cfg net) (ht : 0 < cfg.threshold)
    (hf : ∀ j ∈ cfg.ids, Finished S cfg j (net.ca j)) {e : Event p G1 G2}
    (hst : net.step S cfg (fun _ => true) e = some net') :
    ∀ j ∈ cfg.ids, Finished S cfg j (net'.ca j) := by
  intro j hj
  have hI := h.ca j hj trivial
  rcases Net.step_ca hst j with hsame | ⟨-, -, hnone, hca⟩ | ⟨k, -, ⟨hs, hk, hkj⟩, hca⟩ |
    ⟨i, m, rest, -, -, hch, hca⟩
  · rw [hsame]
    exact hf j hj
  · have hns : j ∉ net.started := by
      intro hs
      rw [hI.peers hs] at hnone
      exact absurd hnone (by simp)
    have hA := CAState.start_spec S (net.ca j) (cfg.peers j) cfg.threshold cfg.n
      (cfg.secret j) (cfg.blinding j) (cfg.computeCommitments_coeffs S ht j)
    rw [hca]
    -- a CA that is only starting is not done
    refine HonestCa.advances_finished hj ht hA (hI.launch hns hj).1 fun hdone => ?_
    rw [launch, CAState.putHash, (hI.fresh hns).2] at hdone
    simp at hdone
  · obtain ⟨l₁, t, l₂, hC, hA, -⟩ := CAState.connect_spec (net.ca j) (cfg.host k)
    rw [hca]
    exact HonestCa.advances_finished hj ht hA (hC.move hI hs hk hkj).1.1
      (connects_finished hC (hf j hj))
  · obtain ⟨l₁, t, l₂, hR, hA, -⟩ := CAState.handle_spec S (net.ca j) m
    rw [hca]
    exact HonestCa.advances_finished hj ht hA (h.react ht hj hch hR)
      (reacts_finished hR (hf j hj))

/-- The invariant of honest runs, with what the finished CAs hold. -/
theorem honest_run_inv (ht : 0 < cfg.threshold)
    (hrun : Run (Net.step S cfg fun _ => true) (fun _ _ => True) Net.init net) :
    HonestNet S cfg net ∧ ∀ j ∈ cfg.ids, Finished S cfg j (net.ca j) := by
  refine hrun.invariant
    (I := fun net => HonestNet S cfg net ∧ ∀ j ∈ cfg.ids, Finished S cfg j (net.ca j))
    ⟨netInv_init .., fun j _ hdone => ?_⟩ ?_
  · simp [Net.init] at hdone
  · rintro net net' e ⟨hI, hf⟩ _ hst
    exact ⟨hI.step ht hst, hI.step_finished ht hf hst⟩

/-- **Distributed key generation is correct in honest runs.** In every state
reached by any interleaving of `startDKG` calls, connections and FIFO
deliveries, no CA has disqualified an id, and a CA that is `DONE` holds the
joint polynomial's value at its id and the two master public keys, which are
therefore the same everywhere. -/
theorem honest_dkg_correct (ht : 0 < cfg.threshold)
    (hrun : Run (Net.step S cfg fun _ => true) (fun _ _ => True) Net.init net) :
    (∀ j ∈ cfg.ids, (net.ca j).disqualifiedIds = ∅)
      ∧ (∀ j ∈ cfg.ids, (net.ca j).state = .done →
        (net.ca j).cryptoCA.secretKeyShare
            = some (cfg.ids.map fun i => (cfg.poly i).eval (j : ZMod p)).sum
          ∧ (net.ca j).cryptoCA.masterPubKeyG1
            = some (zpw S.h1 (cfg.ids.map fun i => (cfg.poly i).eval 0).sum)
          ∧ (net.ca j).cryptoCA.masterPubKeyG2
            = some (zpw S.pairing.g2 (cfg.ids.map fun i => (cfg.poly i).eval 0).sum))
      ∧ ∀ j ∈ cfg.ids, ∀ k ∈ cfg.ids, (net.ca j).state = .done → (net.ca k).state = .done →
        (net.ca j).cryptoCA.masterPubKeyG1 = (net.ca k).cryptoCA.masterPubKeyG1
          ∧ (net.ca j).cryptoCA.masterPubKeyG2 = (net.ca k).cryptoCA.masterPubKeyG2 := by
  obtain ⟨hI, hf⟩ := honest_run_inv ht hrun
  refine ⟨fun j hj => HonestCa.disqualified_empty (hI.ca j hj trivial), fun j hj hd => hf j hj hd, ?_⟩
  intro j hj k hk hdj hdk
  obtain ⟨-, h1, h2⟩ := hf j hj hdj
  obtain ⟨-, h1', h2'⟩ := hf k hk hdk
  exact ⟨h1.trans h1'.symm, h2.trans h2'.symm⟩

end Runs

/-- Two CAs run to the end and hold the keys of the joint polynomial. -/
theorem honest_dkg_correct_two :
    ∃ net, Run (Net.step (productSetup 5 2) (localConfig 5 2 2) fun _ => true)
        (fun _ _ => True) Net.init net
      ∧ ((net.ca 1).state = .done ∧ (net.ca 2).state = .done)
      ∧ (net.ca 1).cryptoCA.secretKeyShare = some
        ((localConfig 5 2 2).ids.map fun i => ((localConfig 5 2 2).poly i).eval
          ((1 : ℤ) : ZMod 5)).sum
      ∧ (net.ca 1).cryptoCA.masterPubKeyG1 = (net.ca 2).cryptoCA.masterPubKeyG1 := by
  have hdone : ∃ net, Run (Net.step (productSetup 5 2) (localConfig 5 2 2) fun _ => true)
      (fun _ _ => True) Net.init net ∧ (net.ca 1).state = .done ∧ (net.ca 2).state = .done :=
    exists_run (twoCaEvents ..) (by decide)
  obtain ⟨net, hrun, h1, h2⟩ := hdone
  obtain ⟨-, hkeys, hsame⟩ := honest_dkg_correct (by decide) hrun
  exact ⟨net, hrun, ⟨h1, h2⟩, (hkeys 1 (by decide) h1).1,
    (hsame 1 (by decide) 2 (by decide) h1 h2).1⟩

end Dittor.Dkg

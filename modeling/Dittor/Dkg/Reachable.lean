import Dittor.Dkg.Link

/-!
# The invariant of the whole network

`NetInv` is `CaInv` for every good CA and `Link` for every two of them. An
event moves one CA: its links to the receivers grow by what it sends, the links
towards it lose the delivered message or only see it record more, and the other
links do not change (`NetInv.put`). `NetInv.step` puts this together for the
four kinds of events, under the condition `Benign` on the messages of the
senders that are not good.
-/

namespace Dittor.Dkg

open Dittor.Lib Dittor.Crypto

section NetInv

variable {p : ℕ} {G1 G2 GT : Type} [CommGroup G1] [CommGroup G2] [CommGroup GT]
  (S : CryptimeleonSetup p G1 G2 GT) (cfg : Config p) (good : ℤ → Prop)
  (Sh : ℤ → ℤ → ZMod p → Prop)

/-- The invariant of the good CAs and of the channels between them. -/
structure NetInv (net : Net p G1 G2) : Prop where
  ca : ∀ j ∈ cfg.ids, good j → CaInv S cfg good Sh j (j ∈ net.started) (net.ca j)
  started : ∀ k ∈ net.started, k ∈ cfg.ids ∧ good k
  up : ∀ e ∈ net.up, e.2 ∈ (net.ca e.1).connectedPeerIds
  silent : ∀ i j, good i → i ∉ cfg.ids ∨ i = j → net.chan i (cfg.host j) = []
  link : ∀ i ∈ cfg.ids, good i → ∀ j ∈ cfg.ids, good j → i ≠ j →
    Link S cfg good i j (net.ca i) (net.ca j) (net.chan i (cfg.host j))

/-- The condition on the events under which the invariant survives: a message
of a sender that is not good must be admissible. -/
def Benign [DecidableEq G1] (net : Net p G1 G2) : Event p G1 G2 → Prop
  | .deliver i j => ¬ good i → ∀ m ∈ (net.chan i (cfg.host j)).head?,
      Admissible S cfg good Sh (net.ca j) m
  | _ => True

theorem netInv_init : NetInv S cfg good Sh (Net.init : Net p G1 G2) where
  ca j _ _ :=
    { caID := rfl
      fresh := fun _ => ⟨rfl, rfl⟩
      peers := fun h => by simp [Net.init] at h
      sizes := fun h => by simp [Net.init] at h
      published := fun h => by simp [Net.init] at h
      myHash := fun h => by simp [Net.init] at h
      coeffs := fun h => by simp [Net.init] at h
      connected := fun k h => by simp [Net.init] at h
      connectedAll := fun h => absurd rfl h
      ownHash := fun h => by simp [Net.init] at h
      hashes := fun k h _ hl => by simp [Net.init] at hl
      commitments := fun k C _ hl => by simp [Net.init] at hl
      pubKeyG1 := fun k P _ hl => by simp [Net.init] at hl
      pubKeyG2 := fun k P _ hl => by simp [Net.init] at hl
      keysG1 := fun k => by simp [Net.init]
      keysG2 := fun k => by simp [Net.init]
      ownReveal := fun h => absurd rfl h
      shares := fun k v _ hl => by simp [Net.init] at hl
      shareRevealed := fun k h => by simp [Net.init] at h
      ownShare := fun h => by simp [Net.init] at h
      disqualified := fun k h => by simp [Net.init] at h }
  started k h := by simp [Net.init] at h
  up e h := by simp [Net.init] at h
  silent _ _ _ _ := rfl
  link i _ _ j _ _ _ := ⟨trivial, fun h => by simp [Net.init] at h, fun h => absurd rfl h,
    fun h => by simp [Net.init] at h⟩

variable {S cfg good Sh} {net : Net p G1 G2} {j : ℤ} {u : CAState p G1 G2}
  {l : List (Host × DkgMsg p G1 G2)}

/-- **One CA moves.** `net₀` is the network just before the move is recorded:
the same as `net` but for the channels towards `j` and for `j` having started. -/
theorem NetInv.put (h : NetInv S cfg good Sh net) (net₀ : Net p G1 G2) (hj : j ∈ cfg.ids)
    (hg : good j) (hca : net₀.ca = net.ca) (hup : net₀.up = net.up)
    (hst : ∀ k, k ≠ j → (k ∈ net₀.started ↔ k ∈ net.started))
    (hout : ∀ a k, k ≠ j → net₀.chan a (cfg.host k) = net.chan a (cfg.host k))
    (hsil : ∀ a, good a → a ∉ cfg.ids ∨ a = j → net₀.chan a (cfg.host j) = [])
    (hI : CaInv S cfg good Sh j (j ∈ net₀.started) u) (hm : Move S cfg good j (net.ca j) l u)
    (hin : ∀ a ∈ cfg.ids, good a → a ≠ j →
      Link S cfg good a j (net.ca a) u (net₀.chan a (cfg.host j))) :
    NetInv S cfg good Sh (net₀.put j u l) where
  ca k hk hgk := by
    by_cases hkj : k = j
    · subst hkj
      rw [Net.put_ca_self]
      exact hI
    · rw [Net.put_ca_ne _ hkj, hca]
      have hold := h.ca k hk hgk
      rwa [← propext (hst k hkj)] at hold
  started k hk := by
    by_cases hkj : k = j
    · rw [hkj]
      exact ⟨hj, hg⟩
    · exact h.started k ((hst k hkj).mp hk)
  up e he := by
    have hold := h.up e (hup ▸ he)
    by_cases hej : e.1 = j
    · rw [hej, Net.put_ca_self]
      exact hm.grows.connected _ (hej ▸ hold)
    · rw [Net.put_ca_ne _ hej, hca]
      exact hold
  silent a k hga hak := by
    by_cases haj : a = j
    · subst haj
      have hka : a = k := hak.resolve_left (fun hn => hn hj)
      subst hka
      rw [Net.put_chan_self, hm.self, List.append_nil]
      exact hsil a hga (Or.inr rfl)
    · rw [Net.put_chan_ne _ haj]
      by_cases hkj : k = j
      · subst hkj
        exact hsil a hga hak
      · rw [hout a k hkj]
        exact h.silent a k hga hak
  link a ha hga k hk hgk hak := by
    by_cases haj : a = j
    · subst haj
      rw [Net.put_ca_self, Net.put_ca_ne _ hak.symm, Net.put_chan_self, hca, hout a k hak.symm]
      exact hm.link k hk hgk hak.symm (h.link a ha hga k hk hgk hak)
    · rw [Net.put_ca_ne _ haj, Net.put_chan_ne _ haj, hca]
      by_cases hkj : k = j
      · subst hkj
        rw [Net.put_ca_self]
        exact hin a ha hga haj
      · rw [Net.put_ca_ne _ hkj, hca, hout a k hkj]
        exact h.link a ha hga k hk hgk hak

/-- A CA that moves on its own: no channel towards it changes. -/
theorem NetInv.putSelf (h : NetInv S cfg good Sh net) (hj : j ∈ cfg.ids) (hg : good j)
    (hI : CaInv S cfg good Sh j (j ∈ net.started) u) (hm : Move S cfg good j (net.ca j) l u) :
    NetInv S cfg good Sh (net.put j u l) :=
  h.put net hj hg rfl rfl (fun _ _ => Iff.rfl) (fun _ _ _ => rfl)
    (fun a hga ha => h.silent a j hga ha) hI hm
    fun a ha hga haj => (h.link a ha hga j hj hg haj).grow hm.grows

/-- A message of a sender that is not good joins its channel. -/
theorem NetInv.inject (h : NetInv S cfg good Sh net) {b : ℤ} (hb : ¬ good b) (host : Host)
    (ch : List (DkgMsg p G1 G2)) : NetInv S cfg good Sh (net.setChan b host ch) where
  ca := h.ca
  started := h.started
  up := h.up
  silent a k hga hak := by
    have hab : a ≠ b := fun he => hb (he ▸ hga)
    rw [Net.setChan_ne _ fun he => hab he.1]
    exact h.silent a k hga hak
  link a ha hga k hk hgk hak := by
    have hab : a ≠ b := fun he => hb (he ▸ hga)
    rw [Net.setChan_ne _ fun he => hab he.1]
    exact h.link a ha hga k hk hgk hak

end NetInv

section Step

variable {p : ℕ} [Fact p.Prime] {G1 G2 GT : Type} [CommGroup G1] [CommGroup G2] [CommGroup GT]
  [ExpGroup p G1] [DecidableEq G1] {S : CryptimeleonSetup p G1 G2 GT} {cfg : Config p}
  {good : ℤ → Prop} {Sh : ℤ → ℤ → ZMod p → Prop} {follows : ℤ → Bool}
  {net net' : Net p G1 G2}

/-- A message from a good CA is admissible: its channel is orderly, and not
empty only if it leads to another CA. -/
theorem NetInv.admissible (h : NetInv S cfg good Sh net) (ht : 0 < cfg.threshold) {i j : ℤ}
    (hSh : i ∈ cfg.ids → Sh i j (cfg.shareOf i j)) (hj : j ∈ cfg.ids) (hg : good j)
    (hgi : good i) {m : DkgMsg p G1 G2} {rest : List (DkgMsg p G1 G2)}
    (hch : net.chan i (cfg.host j) = m :: rest) :
    Admissible S cfg good Sh (net.ca j) m := by
  by_cases hsil : i ∉ cfg.ids ∨ i = j
  · rw [h.silent i j hgi hsil] at hch
    exact absurd hch (by simp)
  · obtain ⟨hi, hij⟩ := not_or.mp hsil
    have hi' := not_not.mp hi
    have hl := h.link i hi' hgi j hj hg hij
    rw [hch] at hl
    exact hl.order.admissible ht hi' (hSh hi') (h.ca j hj hg)

/-- The delivery of an admissible message. -/
theorem NetInv.deliver (h : NetInv S cfg good Sh net) (ht : 0 < cfg.threshold) {i j : ℤ}
    (hj : j ∈ cfg.ids) (hg : good j) (hSh : Sh j j (cfg.shareOf j j))
    {m : DkgMsg p G1 G2} {rest : List (DkgMsg p G1 G2)}
    (hch : net.chan i (cfg.host j) = m :: rest)
    (hm : Admissible S cfg good Sh (net.ca j) m) :
    NetInv S cfg good Sh ((net.setChan i (cfg.host j) rest).put j
      ((net.ca j).handle S m).state ((net.ca j).handle S m).sent) := by
  obtain ⟨l₁, t, l₂, hR, hA, hsent⟩ := CAState.handle_spec S (net.ca j) m
  have hI := h.ca j hj hg
  have hmove := hR.move hI hm
  obtain ⟨hI', hmove'⟩ := hA.move hj hSh (hI.react hm hR)
  have hne : ∀ {a : ℤ} {k : ℤ}, ¬ (a = i ∧ k = j) →
      (net.setChan i (cfg.host j) rest).chan a (cfg.host k) = net.chan a (cfg.host k) :=
    fun hak => Net.setChan_ne _ (fun he => hak ⟨he.1, cfg.host_inj he.2⟩) _
  rw [hsent]
  refine h.put _ hj hg rfl rfl (fun _ _ => Iff.rfl) (fun a k hk => hne fun he => hk he.2) ?_
    hI' (hmove.trans hmove') ?_
  · intro a hga ha
    have hai : a ≠ i := by
      rintro rfl
      rw [h.silent a j hga ha] at hch
      exact absurd hch (by simp)
    rw [hne fun he => hai he.1]
    exact h.silent a j hga ha
  · intro a ha hga haj
    have hl := h.link a ha hga j hj hg haj
    by_cases hai : a = i
    · subst hai
      rw [hch] at hl
      rw [Net.setChan_self]
      exact (hl.receive ht hga hI hR).grow hmove'.grows
    · rw [hne fun he => hai he.1]
      exact hl.grow (hmove.trans hmove').grows

/-- **Every benign step keeps the invariant.** -/
theorem NetInv.step (h : NetInv S cfg good Sh net) (ht : 0 < cfg.threshold)
    (hgood : ∀ k, good k → follows k = true) (hids : ∀ k ∈ cfg.ids, follows k = true → good k)
    (hSh : ∀ k ∈ cfg.ids, ∀ j, Sh k j (cfg.shareOf k j)) {e : Event p G1 G2}
    (hb : Benign S cfg good Sh net e) (hst : net.step S cfg follows e = some net') :
    NetInv S cfg good Sh net' := by
  cases Net.step_cases hst with
  | startDKG i out hi hf hnone hout =>
    have hg := hids i hi hf
    have hI := h.ca i hi hg
    have hns : i ∉ net.started := by
      intro hs
      rw [hI.peers hs] at hnone
      exact absurd hnone (by simp)
    obtain ⟨hI₁, hm₁⟩ := hI.launch hns hi
    have hA := CAState.start_spec S (net.ca i) (cfg.peers i) cfg.threshold cfg.n
      (cfg.secret i) (cfg.blinding i) (cfg.computeCommitments_coeffs S ht i)
    rw [← hout] at hA
    obtain ⟨hI₂, hm₂⟩ := hA.move hi (hSh i hi i) hI₁
    -- the hash is set, so the CA counts as started from now on
    rw [hI₂.myHash trivial, Option.isSome_some, if_pos rfl]
    have hin : i ∈ insert i net.started := Finset.mem_insert_self ..
    refine h.put { net with started := insert i net.started } hi hg rfl rfl ?_
      (fun _ _ _ => rfl) (fun a hga ha => h.silent a i hga ha) ?_ (hm₁.trans hm₂) ?_
    · intro k hk
      simp [hk]
    · rwa [← eq_true hin] at hI₂
    · intro a ha hga hai
      exact (h.link a ha hga i hi hg hai).grow (hm₁.trans hm₂).grows
  | connectionUp i j hs hj hji =>
    obtain ⟨hi, hg⟩ := h.started i hs
    obtain ⟨l₁, t, l₂, hC, hA, hsent⟩ := CAState.connect_spec (net.ca i) (cfg.host j)
    obtain ⟨⟨hI₁, hm₁⟩, hmem⟩ := hC.move (h.ca i hi hg) hs hj hji
    obtain ⟨hI₂, hm₂⟩ := hA.move hi (hSh i hi i) hI₁
    rw [hsent]
    have hput := h.putSelf hi hg hI₂ (hm₁.trans hm₂)
    refine { hput with up := ?_ }
    intro e he
    rcases Finset.mem_insert.mp he with rfl | he
    · dsimp only
      rw [Net.put_ca_self]
      exact hm₂.grows.connected j hmem
    · exact hput.up e he
  | deliver i j m rest hj hf hch =>
    have hg := hids j hj hf
    refine h.deliver ht hj hg (hSh j hj j) hch ?_
    by_cases hgi : good i
    · exact h.admissible ht (fun hi => hSh i hi j) hj hg hgi hch
    · exact hb hgi m (by rw [hch]; rfl)
  | inject b j m hf =>
    refine h.inject (fun hg => ?_) _ _
    rw [hgood b hg] at hf
    exact absurd hf (by simp)

end Step

end Dittor.Dkg

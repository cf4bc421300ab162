import Dittor.Dkg.Binding
import Dittor.Dkg.Disqualify

/-!
# Complaints, and what a turn of one CA means for the others

Who is qualified is decided by every CA on its own, from the complaints it has
heard of when its share phase ends. `Coordinated` is the condition on the
events under which the CAs that follow the protocol agree nevertheless, and
`AgreeInv` the invariant that shows it; `Agreement.lean` has the result.

`Coordinated` asks two things. A CA outside the protocol speaks under ids of
its own kind in `1..n`, reveals the same to everybody and accuses nobody who is
not already out. And once a follower is `DONE` while another still works, no
complaint is on its way between followers and no message gets anybody
disqualified at one that still works.

`Turn` says what one event of a follower amounts to for the others: whom it
disqualifies and whom it tells, which reveals it records, and how it ends.
-/

namespace Dittor.Dkg

open Dittor.Lib Dittor.Crypto

/-- The id a complaint accuses. -/
def DkgMsg.accuses {p : ℕ} {G1 G2 : Type} : DkgMsg p G1 G2 → Option ℤ
  | .complaint _ a _ => some a
  | _ => none

section Definitions

variable {p : ℕ} {G1 G2 GT : Type} [CommGroup G1] [CommGroup G2] [CommGroup GT]
  [DecidableEq G1] (S : CryptimeleonSetup p G1 G2 GT) (cfg : Config p) (follows : ℤ → Bool)

/-- The message fails the verification of `handleReveal` or `handleShare`. -/
def Rejects (s : CAState p G1 G2) : DkgMsg p G1 G2 → Prop
  | .reveal k r => s.receivedHashes.lookup k ≠ some (hashCommitments S r)
  | .share k a b => k ∉ s.disqualifiedIds
      ∧ ∃ C ∈ s.receivedCommitments.lookup k, verifyShare S a b C s.caID = some false
  | _ => False

/-- A message of a CA outside the protocol that does not set followers against
each other. -/
def Sincere (net : Net p G1 G2) (j : ℤ) : DkgMsg p G1 G2 → Prop
  | .commitmentHash k _ => k ∈ cfg.ids ∧ follows k = false
  | .reveal k r => (k ∈ cfg.ids ∧ follows k = false)
      ∧ ∀ y ∈ cfg.ids, follows y = true → k ∈ (net.ca y).receivedCommitments →
        Recorded (net.ca y) k r
  | .share k _ _ => k ∈ cfg.ids ∧ follows k = false
  | .complaint _ a _ => a ∈ (net.ca j).disqualifiedIds

/-- Some follower is `DONE`. -/
def SomeDone (net : Net p G1 G2) : Prop :=
  ∃ i ∈ cfg.ids, follows i = true ∧ (net.ca i).state = .done

/-- Some follower is not. -/
def SomeWorking (net : Net p G1 G2) : Prop :=
  ∃ i ∈ cfg.ids, follows i = true ∧ (net.ca i).state ≠ .done

/-- No complaint is on its way between followers. -/
def Calm (net : Net p G1 G2) : Prop :=
  ∀ i ∈ cfg.ids, follows i = true → ∀ j ∈ cfg.ids, follows j = true →
    ∀ m ∈ net.chan i (cfg.host j), m.accuses = none

/-- The condition on the delivery of `m` from `i` to `j`. -/
def FairDelivery (net : Net p G1 G2) (i j : ℤ) (m : DkgMsg p G1 G2) : Prop :=
  (¬ Follower cfg follows i → Sincere cfg follows net j m)
    ∧ (Rejects S (net.ca j) m → j ∈ net.started
      ∧ (SomeDone cfg follows net → (net.ca j).state = .done))

/-- The condition on the events under which the followers agree. -/
def Coordinated (net : Net p G1 G2) (e : Event p G1 G2) : Prop :=
  (SomeDone cfg follows net → SomeWorking cfg follows net → Calm cfg follows net)
    ∧ match e with
      | .deliver i j => ∀ m ∈ (net.chan i (cfg.host j)).head?, FairDelivery S cfg follows net i j m
      | _ => True

section Decidable

variable [DecidableEq G2] (net : Net p G1 G2)

instance (s : CAState p G1 G2) (m : DkgMsg p G1 G2) : Decidable (Rejects S s m) :=
  match m with
  | .commitmentHash _ _ => isFalse id
  | .reveal _ _ => inferInstanceAs (Decidable (_ ≠ _))
  | .share _ _ _ => inferInstanceAs (Decidable (_ ∧ _))
  | .complaint _ _ _ => isFalse id

instance (j : ℤ) (m : DkgMsg p G1 G2) : Decidable (Sincere cfg follows net j m) :=
  match m with
  | .commitmentHash _ _ => inferInstanceAs (Decidable (_ ∧ _))
  | .reveal _ _ => inferInstanceAs (Decidable (_ ∧ _))
  | .share _ _ _ => inferInstanceAs (Decidable (_ ∧ _))
  | .complaint _ _ _ => inferInstanceAs (Decidable (_ ∈ _))

instance : Decidable (SomeDone cfg follows net) :=
  inferInstanceAs (Decidable (∃ i ∈ cfg.ids, _))

instance : Decidable (SomeWorking cfg follows net) :=
  inferInstanceAs (Decidable (∃ i ∈ cfg.ids, _))

instance : Decidable (Calm cfg follows net) :=
  inferInstanceAs (Decidable (∀ i ∈ cfg.ids, _))

instance (i j : ℤ) (m : DkgMsg p G1 G2) : Decidable (FairDelivery S cfg follows net i j m) :=
  inferInstanceAs (Decidable (_ ∧ _))

instance (e : Event p G1 G2) : Decidable (Coordinated S cfg follows net e) :=
  match e with
  | .startDKG _ => inferInstanceAs (Decidable (_ ∧ True))
  | .connectionUp _ _ => inferInstanceAs (Decidable (_ ∧ True))
  | .inject _ _ _ => inferInstanceAs (Decidable (_ ∧ True))
  | .deliver i j => inferInstanceAs (Decidable (_ ∧
      ∀ m ∈ (net.chan i (cfg.host j)).head?, FairDelivery S cfg follows net i j m))

end Decidable

end Definitions

/-! ## What the phase checks leave alone -/

section Phases

variable {p : ℕ} {G1 G2 : Type} [CommGroup G1] [CommGroup G2] {s t : CAState p G1 G2}
  {l : List (Host × DkgMsg p G1 G2)}

/-- What a chain of phases does not touch. -/
structure PhaseFrame (s : CAState p G1 G2) (l : List (Host × DkgMsg p G1 G2))
    (t : CAState p G1 G2) : Prop where
  disqualified : t.disqualifiedIds = s.disqualifiedIds
  caID : t.caID = s.caID
  silent : ∀ e ∈ l, e.2.accuses = none
  commitments : ∀ k, k ≠ s.caID →
    t.receivedCommitments.lookup k = s.receivedCommitments.lookup k
  pubKeyG1 : ∀ k, k ≠ s.caID → t.receivedPubKeyG1.lookup k = s.receivedPubKeyG1.lookup k
  pubKeyG2 : ∀ k, k ≠ s.caID → t.receivedPubKeyG2.lookup k = s.receivedPubKeyG2.lookup k

theorem advance_frame (hA : Advance s l t) : PhaseFrame s l t := by
  cases hA with
  | @toReveals peers r hst hp hn hc hr =>
    refine ⟨rfl, rfl, ?_, fun k hk => AList.lookup_insert_ne hk,
      fun k hk => AList.lookup_insert_ne hk, fun k hk => AList.lookup_insert_ne hk⟩
    intro e he
    obtain ⟨x, -, rfl⟩ := List.mem_map.mp he
    rfl
  | @toShares peers c hst hn hp hc =>
    refine ⟨rfl, rfl, ?_, fun _ _ => rfl, fun _ _ => rfl, fun _ _ => rfl⟩
    intro e he
    obtain ⟨x, -, rfl⟩ := List.mem_map.mp he
    rfl
  | _ => exact ⟨rfl, rfl, fun e he => absurd he (by simp), fun _ _ => rfl, fun _ _ => rfl,
      fun _ _ => rfl⟩

theorem advances_frame (hA : Advances s l t) : PhaseFrame s l t := by
  induction hA with
  | refl => exact ⟨rfl, rfl, fun e he => absurd he (by simp), fun _ _ => rfl, fun _ _ => rfl,
      fun _ _ => rfl⟩
  | head hA _ ih =>
    have h := advance_frame hA
    refine ⟨ih.disqualified.trans h.disqualified, ih.caID.trans h.caID, ?_, ?_, ?_, ?_⟩
    · intro e he
      rcases List.mem_append.mp he with he | he
      · exact h.silent e he
      · exact ih.silent e he
    · exact fun k hk => (ih.commitments k (h.caID ▸ hk)).trans (h.commitments k hk)
    · exact fun k hk => (ih.pubKeyG1 k (h.caID ▸ hk)).trans (h.pubKeyG1 k hk)
    · exact fun k hk => (ih.pubKeyG2 k (h.caID ▸ hk)).trans (h.pubKeyG2 k hk)

omit [CommGroup G1] [CommGroup G2] in
theorem PhaseFrame.recorded (h : PhaseFrame s l t) {k : ℤ} (hk : k ≠ s.caID)
    {r : Reveal G1 G2} : Recorded t k r ↔ Recorded s k r := by
  unfold Recorded
  rw [h.commitments k hk, h.pubKeyG1 k hk, h.pubKeyG2 k hk]

/-- The state in which a CA finishes: enough shares are accounted for, and the
master keys are the products over the qualified ids. -/
def JustFinished (t : CAState p G1 G2) : Prop :=
  t.n ≤ t.accountedShares.card
    ∧ t.cryptoCA.masterPubKeyG1
      = some (t.qualifiedIds.map fun id => (t.receivedPubKeyG1.lookup id).getD 1).prod
    ∧ t.cryptoCA.masterPubKeyG2
      = some (t.qualifiedIds.map fun id => (t.receivedPubKeyG2.lookup id).getD 1).prod

theorem advances_finish (hA : Advances s l t) (hs : s.state ≠ .done) (ht : t.state = .done) :
    JustFinished t := by
  induction hA with
  | refl => exact absurd ht hs
  | @head s m t l l' hA hrest ih =>
    by_cases hm : m.state = .done
    · -- the chain ends with the step that reached `DONE`, which is `finalizeDKG`
      obtain rfl := advances_of_done hrest hm
      cases hA with
      | toReveals => simp [CAState.putReveal] at hm
      | toRevealsNull => simp at hm
      | toShares => simp [CAState.putShare] at hm
      | toSharesNull => simp at hm
      | finalize hst hn _ hf =>
        obtain ⟨-, h2, h3, -⟩ := CAState.finalize_ok hf
        exact ⟨hn, h2, h3⟩
      | finalizeThrows hst => rw [hst] at hm; simp at hm
    · exact ih hm ht

end Phases

/-! ## The invariant -/

section Invariant

variable {p : ℕ} {G1 G2 GT : Type} [CommGroup G1] [CommGroup G2] [CommGroup GT]
  (S : CryptimeleonSetup p G1 G2 GT) (cfg : Config p) (follows : ℤ → Bool)

/-- A CA that finished without the ids in `D`: it has the reveals of all others,
and its master keys are the products over them. -/
def FinishedWithout (D : Finset ℤ) (s : CAState p G1 G2) : Prop :=
  (∀ k ∈ cfg.ids, k ∉ D → k ∈ s.receivedCommitments)
    ∧ s.cryptoCA.masterPubKeyG1
      = some ((cfg.ids.filter (· ∉ D)).map fun k => (s.receivedPubKeyG1.lookup k).getD 1).prod
    ∧ s.cryptoCA.masterPubKeyG2
      = some ((cfg.ids.filter (· ∉ D)).map fun k => (s.receivedPubKeyG2.lookup k).getD 1).prod

/-- A complaint about `d` is on its way to `y`. -/
def InFlight (net : Net p G1 G2) (y d : ℤ) : Prop :=
  ∃ k, Follower cfg follows k ∧ ∃ m ∈ net.chan k (cfg.host y), m.accuses = some d

structure AgreeInv (net : Net p G1 G2) : Prop where
  base : NetInv S cfg (Follower cfg follows) (fun _ _ _ => True) net
  knownReveals : ∀ j, Follower cfg follows j → ∀ k ∈ (net.ca j).receivedCommitments, k ∈ cfg.ids
  knownOut : ∀ j, Follower cfg follows j → ∀ k ∈ (net.ca j).disqualifiedIds, k ∈ cfg.ids
  same : ∀ x y, Follower cfg follows x → Follower cfg follows y → ∀ k r r',
    Recorded (net.ca x) k r → Recorded (net.ca y) k r' → r = r'
  sync : ∀ x y, Follower cfg follows x → Follower cfg follows y →
    ∀ d ∈ (net.ca x).disqualifiedIds,
      d ∈ (net.ca y).disqualifiedIds ∨ InFlight cfg follows net y d
  sender : ∀ x y, Follower cfg follows x → Follower cfg follows y →
    ∀ m ∈ net.chan x (cfg.host y), ∀ d, m.accuses = some d → d ∈ (net.ca x).disqualifiedIds
  finished : ∃ D : Finset ℤ,
    (∀ j, Follower cfg follows j → (net.ca j).state = .done →
      FinishedWithout cfg D (net.ca j) ∧ net.finalized j = some (cfg.ids.toFinset \ D))
      ∧ (SomeDone cfg follows net → Calm cfg follows net →
        ∀ j, Follower cfg follows j → (net.ca j).state ≠ .done →
          (net.ca j).disqualifiedIds = D)

/-- What the event of one follower `j` amounts to for the others. -/
structure Turn (net : Net p G1 G2) (j : ℤ) (u : CAState p G1 G2)
    (l : List (Host × DkgMsg p G1 G2)) : Prop where
  grows : Grows (net.ca j) u
  out : ∀ d ∈ (net.ca j).disqualifiedIds, d ∈ u.disqualifiedIds
  fresh : ∀ d ∈ u.disqualifiedIds, d ∈ (net.ca j).disqualifiedIds
    ∨ (∃ k, Follower cfg follows k ∧ d ∈ (net.ca k).disqualifiedIds)
    ∨ (d ∈ cfg.ids ∧ ∀ y ∈ cfg.ids, y ≠ j → y ≠ d →
      ∃ m ∈ sentTo l (cfg.host y), m.accuses = some d)
  told : ∀ y, ∀ m ∈ sentTo l (cfg.host y), ∀ d, m.accuses = some d → d ∈ u.disqualifiedIds
  known : ∀ k ∈ u.receivedCommitments, k ∈ (net.ca j).receivedCommitments ∨ k ∈ cfg.ids
  heard : ∀ k, ¬ Follower cfg follows k → ∀ r, Recorded u k r → Recorded (net.ca j) k r
    ∨ ∀ y, Follower cfg follows y → k ∈ (net.ca y).receivedCommitments →
      Recorded (net.ca y) k r
  keeps : ∀ k, ¬ Follower cfg follows k → ∀ r, Recorded (net.ca j) k r → Recorded u k r
  steady : SomeDone cfg follows net → (net.ca j).state ≠ .done →
    u.disqualifiedIds = (net.ca j).disqualifiedIds
  done : (net.ca j).state = .done → u.state = .done ∧ u.cryptoCA = (net.ca j).cryptoCA
  finish : (net.ca j).state ≠ .done → u.state = .done → JustFinished u

variable {S cfg follows} {net net₀ : Net p G1 G2} {j : ℤ} {t u : CAState p G1 G2}
  {l l' : List (Host × DkgMsg p G1 G2)}

/-- The phases that follow an event add nothing to it but the end itself. -/
theorem Turn.advances (h : Turn cfg follows net j t l) (hj : Follower cfg follows j)
    (hcid : t.caID = j) (hst : t.state = (net.ca j).state) (hA : Advances t l' u)
    (hgrow : Grows t u) : Turn cfg follows net j u (l ++ l') := by
  have hfr := advances_frame hA
  have hne : ∀ k, ¬ Follower cfg follows k → k ≠ t.caID := by
    intro k hk he
    exact hk (by rw [he, hcid]; exact hj)
  refine ⟨⟨fun k hk => hgrow.hashes k (h.grows.hashes k hk),
    fun k hk => hgrow.commitments k (h.grows.commitments k hk),
    fun k hk => hgrow.shares k (h.grows.shares k hk),
    fun k hk => hgrow.connected k (h.grows.connected k hk)⟩, ?_, ?_, ?_, ?_, ?_, ?_, ?_, ?_, ?_⟩
  · rw [hfr.disqualified]
    exact h.out
  · rw [hfr.disqualified]
    intro d hd
    rcases h.fresh d hd with hd | hd | ⟨hid, hd⟩
    · exact Or.inl hd
    · exact Or.inr (Or.inl hd)
    · refine Or.inr (Or.inr ⟨hid, fun y hy hyj hyd => ?_⟩)
      obtain ⟨m, hm, ha⟩ := hd y hy hyj hyd
      exact ⟨m, by rw [sentTo_append]; exact List.mem_append_left _ hm, ha⟩
  · intro y m hm d ha
    rw [sentTo_append] at hm
    rw [hfr.disqualified]
    rcases List.mem_append.mp hm with hm | hm
    · exact h.told y m hm d ha
    · rw [hfr.silent _ (mem_sentTo.mp hm)] at ha
      exact absurd ha (by simp)
  · intro k hk
    by_cases hkt : k = t.caID
    · rw [hkt, hcid]
      exact Or.inr hj.1
    · obtain ⟨C, hC⟩ := lookup_of_mem hk
      rw [hfr.commitments k hkt] at hC
      exact h.known k (mem_of_lookup hC)
  · intro k hk r hr
    exact h.heard k hk r ((hfr.recorded (hne k hk)).mp hr)
  · intro k hk r hr
    exact (hfr.recorded (hne k hk)).mpr (h.keeps k hk r hr)
  · rw [hfr.disqualified]
    exact h.steady
  · intro hd
    have hut := advances_of_done hA (hst.trans hd)
    rw [hut]
    exact h.done hd
  · intro hd hu
    exact advances_finish hA (by rw [hst]; exact hd) hu

/-- What is recorded of a follower is what it published. -/
theorem CaInv.recorded_follower {started : Prop} {s : CAState p G1 G2} {good : ℤ → Prop}
    {Sh : ℤ → ℤ → ZMod p → Prop} (hI : CaInv S cfg good Sh j started s) {k : ℤ} (hk : good k)
    {r : Reveal G1 G2} (hr : Recorded s k r) : r = cfg.content S k := by
  obtain ⟨C, P, Q⟩ := r
  have hC := (hI.commitments k C hk hr.1).2
  have hP := hI.pubKeyG1 k P hk hr.2.1
  have hQ := hI.pubKeyG2 k Q hk hr.2.2
  rw [hC, hP, hQ]

theorem CaInv.recorded_of_mem {started : Prop} {s : CAState p G1 G2} {good : ℤ → Prop}
    {Sh : ℤ → ℤ → ZMod p → Prop} (hI : CaInv S cfg good Sh j started s) {k : ℤ}
    (hk : k ∈ s.receivedCommitments) : ∃ r, Recorded s k r := by
  obtain ⟨C, hC⟩ := lookup_of_mem hk
  obtain ⟨P, hP⟩ := lookup_of_mem ((hI.keysG1 k).mpr hk)
  obtain ⟨Q, hQ⟩ := lookup_of_mem ((hI.keysG2 k).mpr hk)
  exact ⟨⟨C, P, Q⟩, hC, hP, hQ⟩

/-- **The qualified ids at the end** are the ids that are not disqualified: with
only ids of `1..n` counted, `n` of them accounted for is all of them. -/
theorem CaInv.finishedWithout {started : Prop} {good : ℤ → Prop}
    {Sh : ℤ → ℤ → ZMod p → Prop} (hI : CaInv S cfg good Sh j started u) (hs : started)
    (hrev : ∀ k ∈ u.receivedCommitments, k ∈ cfg.ids)
    (hout : ∀ k ∈ u.disqualifiedIds, k ∈ cfg.ids) (hf : JustFinished u) :
    FinishedWithout cfg u.disqualifiedIds u
      ∧ u.qualifiedIds.toFinset = cfg.ids.toFinset \ u.disqualifiedIds := by
  obtain ⟨hn, h1, h2⟩ := hf
  have hsub : u.accountedShares ⊆ cfg.ids.toFinset := by
    intro k hk
    rcases Finset.mem_union.mp hk with hk | hk
    · have hmem := hI.shareRevealed k (AList.mem_keys.mpr (List.mem_toFinset.mp hk))
      exact List.mem_toFinset.mpr (hrev k hmem)
    · exact List.mem_toFinset.mpr (hout k hk)
  -- everyone is accounted for: by a share, which is recorded after a reveal, or as disqualified
  have hall : u.accountedShares = cfg.ids.toFinset :=
    cfg.eq_ids_of_card hsub ((hI.sizes hs).1 ▸ hn)
  have hcomm : ∀ k ∈ cfg.ids, k ∉ u.disqualifiedIds → k ∈ u.receivedCommitments := by
    intro k hk hd
    have hmem : k ∈ u.accountedShares := by
      rw [hall]
      exact List.mem_toFinset.mpr hk
    rcases Finset.mem_union.mp hmem with hk' | hk'
    · exact hI.shareRevealed k (AList.mem_keys.mpr (List.mem_toFinset.mp hk'))
    · exact absurd hk' hd
  have hset : u.qualifiedIds.toFinset = cfg.ids.toFinset \ u.disqualifiedIds := by
    ext k
    simp only [CAState.qualifiedIds, List.mem_toFinset, List.mem_filter, decide_eq_true_eq,
      Finset.mem_sdiff]
    constructor
    · rintro ⟨hk, hd⟩
      exact ⟨hrev k (AList.mem_keys.mpr hk), hd⟩
    · rintro ⟨hk, hd⟩
      exact ⟨AList.mem_keys.mp (hcomm k hk hd), hd⟩
  have hfilter : (cfg.ids.filter (· ∉ u.disqualifiedIds)).toFinset
      = cfg.ids.toFinset \ u.disqualifiedIds := by
    ext k
    simp
  have hperm : u.qualifiedIds.Perm (cfg.ids.filter (· ∉ u.disqualifiedIds)) :=
    List.perm_of_nodup_nodup_toFinset_eq (u.receivedCommitments.keys_nodup.filter _)
      (cfg.ids_nodup.filter _) (hset.trans hfilter.symm)
  exact ⟨⟨hcomm, by rw [h1, (hperm.map _).prod_eq], by rw [h2, (hperm.map _).prod_eq]⟩, hset⟩

/-- A finished CA keeps the reveals its keys are made of. -/
theorem FinishedWithout.of_recorded {D : Finset ℤ} {s : CAState p G1 G2}
    (h : FinishedWithout cfg D s) (hca : u.cryptoCA = s.cryptoCA)
    (hrec : ∀ k ∈ s.receivedCommitments, ∃ r, Recorded s k r ∧ Recorded u k r) :
    FinishedWithout cfg D u := by
  obtain ⟨hmem, h1, h2⟩ := h
  have hlook : ∀ k ∈ cfg.ids.filter (· ∉ D), ∃ r, Recorded s k r ∧ Recorded u k r := by
    intro k hk
    obtain ⟨hki, hkD⟩ := List.mem_filter.mp hk
    exact hrec k (hmem k hki (by simpa using hkD))
  refine ⟨fun k hk hkD => ?_, ?_, ?_⟩
  · obtain ⟨r, -, hr⟩ := hrec k (hmem k hk hkD)
    exact hr.mem
  · rw [hca, h1]
    congr 2
    refine List.map_congr_left fun k hk => ?_
    obtain ⟨r, hs, hu⟩ := hlook k hk
    rw [hs.2.1, hu.2.1]
  · rw [hca, h2]
    congr 2
    refine List.map_congr_left fun k hk => ?_
    obtain ⟨r, hs, hu⟩ := hlook k hk
    rw [hs.2.2, hu.2.2]

/-- What a follower has recorded, it keeps. -/
theorem Turn.stable (h : Turn cfg follows net j u l) (hj : Follower cfg follows j)
    (hI : AgreeInv S cfg follows net) {started : Prop}
    (hu : CaInv S cfg (Follower cfg follows) (fun _ _ _ => True) j started u) :
    ∀ k ∈ (net.ca j).receivedCommitments, ∃ r, Recorded (net.ca j) k r ∧ Recorded u k r := by
  intro k hk
  have hs := hI.base.ca j hj.1 hj
  obtain ⟨r, hr⟩ := hs.recorded_of_mem hk
  by_cases hf : Follower cfg follows k
  · obtain ⟨r', hr'⟩ := hu.recorded_of_mem (h.grows.commitments k hk)
    rw [hs.recorded_follower hf hr] at hr
    rw [hu.recorded_follower hf hr'] at hr'
    exact ⟨_, hr, hr'⟩
  · exact ⟨r, hr, h.keeps k hf r hr⟩

/-- A turn in which nothing is disqualified, revealed or said. -/
theorem Turn.quiet (hgrow : Grows (net.ca j) t)
    (hdis : t.disqualifiedIds = (net.ca j).disqualifiedIds)
    (hrec : t.receivedCommitments = (net.ca j).receivedCommitments
      ∧ t.receivedPubKeyG1 = (net.ca j).receivedPubKeyG1
      ∧ t.receivedPubKeyG2 = (net.ca j).receivedPubKeyG2)
    (hsil : ∀ e ∈ l, e.2.accuses = none) (hst : t.state = (net.ca j).state)
    (hca : (net.ca j).state = .done → t.cryptoCA = (net.ca j).cryptoCA) :
    Turn cfg follows net j t l := by
  have hsame : ∀ k r, Recorded t k r ↔ Recorded (net.ca j) k r := by
    intro k r
    unfold Recorded
    rw [hrec.1, hrec.2.1, hrec.2.2]
  refine ⟨hgrow, fun d hd => hdis ▸ hd, fun d hd => Or.inl (hdis ▸ hd), ?_,
    fun k hk => Or.inl (hrec.1 ▸ hk), fun k _ r hr => Or.inl ((hsame k r).mp hr),
    fun k _ r hr => (hsame k r).mpr hr, fun _ _ => hdis, fun hd => ⟨hst.trans hd, hca hd⟩,
    fun hd hu => absurd (hst.symm.trans hu) hd⟩
  intro y m hm d ha
  rw [hsil _ (mem_sentTo.mp hm)] at ha
  exact absurd ha (by simp)

/-- A turn that disqualifies `k` and tells all others. -/
theorem Turn.complain {k : ℤ} {reason : String} (hk : k ∈ cfg.ids)
    (hp : (net.ca j).hostToPeerId = some (cfg.peers j))
    (hdone : SomeDone cfg follows net → (net.ca j).state = .done) :
    Turn cfg follows net j ((net.ca j).disqualify k) (complaints (net.ca j) k reason) := by
  refine ⟨.of_eq rfl rfl rfl rfl, fun d hd => Finset.mem_insert_of_mem hd, ?_, ?_,
    fun _ hk' => Or.inl hk', fun _ _ _ hr => Or.inl hr, fun _ _ _ hr => hr,
    fun hs hd => absurd (hdone hs) hd, fun hd => ⟨hd, rfl⟩, fun hd hu => absurd hu hd⟩
  · intro d hd
    rcases Finset.mem_insert.mp hd with rfl | hd
    · refine Or.inr (Or.inr ⟨hk, fun y hy hyj hyd => ?_⟩)
      -- the complaint goes to every peer but the accused
      have hl : complaints (net.ca j) d reason
          = (net.ca j).complaintMessages (cfg.peers j) d reason := by
        rw [complaints, hp]
      have hs := sentTo_peers cfg j y (fun k => decide (k ≠ d))
        fun _ => (.complaint (net.ca j).caID d reason : DkgMsg p G1 G2)
      rw [if_pos ⟨hy, hyj, by simpa using hyd⟩] at hs
      refine ⟨.complaint (net.ca j).caID d reason, ?_, rfl⟩
      rw [hl, CAState.complaintMessages, hs]
      exact List.mem_singleton_self _
    · exact Or.inl hd
  · intro y m hm d ha
    obtain ⟨-, rfl⟩ := mem_sentTo_complaints (Or.inr hp) hm
    obtain rfl : k = d := Option.some.inj ha
    exact Finset.mem_insert_self ..

end Invariant

section Deliver

variable {p : ℕ} {G1 G2 GT : Type} [CommGroup G1] [CommGroup G2] [CommGroup GT]
  [DecidableEq G1] {S : CryptimeleonSetup p G1 G2 GT} {cfg : Config p} {follows : ℤ → Bool}
  {net : Net p G1 G2} {i j : ℤ} {m : DkgMsg p G1 G2} {rest : List (DkgMsg p G1 G2)}
  {t : CAState p G1 G2} {l : List (Host × DkgMsg p G1 G2)}

omit [DecidableEq G1] in
/-- What a follower receives from a follower is in that one's name. -/
theorem AgreeInv.order (h : AgreeInv S cfg follows net) (hi : Follower cfg follows i)
    (hj : Follower cfg follows j) (hch : net.chan i (cfg.host j) = m :: rest) :
    Orderly S cfg (Follower cfg follows) i j (i ∈ (net.ca j).receivedHashes)
      (i ∈ (net.ca j).receivedCommitments) (m :: rest) := by
  have hij : i ≠ j := by
    rintro rfl
    rw [h.base.silent i i hi (Or.inr rfl)] at hch
    exact absurd hch (by simp)
  have hl := h.base.link i hi.1 hi j hj.1 hj hij
  rw [hch] at hl
  exact hl.order

omit [DecidableEq G1] in
/-- A reveal is recorded: a follower's own, or one that agrees with what the others have. -/
theorem Turn.putReveal {k : ℤ} {r : Reveal G1 G2} (hj : Follower cfg follows j)
    (hgrow : Grows (net.ca j) ((net.ca j).putReveal k r))
    (hwho : Follower cfg follows k ∨ (k ∈ cfg.ids ∧ ∀ y, Follower cfg follows y →
      k ∈ (net.ca y).receivedCommitments → Recorded (net.ca y) k r)) :
    Turn cfg follows net j ((net.ca j).putReveal k r) ([] : List (Host × DkgMsg p G1 G2)) := by
  have hkeep : ∀ k', ¬ Follower cfg follows k' → ∀ r', Recorded (net.ca j) k' r' →
      Recorded ((net.ca j).putReveal k r) k' r' := by
    intro k' hk' r' hr'
    by_cases hkk : k' = k
    · subst hkk
      -- a second reveal of an outsider repeats the first
      obtain ⟨-, hsame⟩ := hwho.resolve_left hk'
      rw [hr'.unique (hsame j hj hr'.mem)]
      exact recorded_putReveal_self
    · exact recorded_putReveal_ne hkk hr'
  refine ⟨hgrow, fun _ hd => hd, fun _ hd => Or.inl hd, fun y m' hm' => absurd hm' (by simp),
    ?_, ?_, hkeep, fun _ _ => rfl, fun hd => ⟨hd, rfl⟩, fun hd hu => absurd hu hd⟩
  · intro k' hk'
    rcases (AList.mem_insert _).mp hk' with rfl | hk'
    · exact Or.inr (hwho.elim (fun hf => hf.1) fun hk => hk.1)
    · exact Or.inl hk'
  · intro k' hk' r' hr'
    by_cases hkk : k' = k
    · subst hkk
      obtain ⟨-, hsame⟩ := hwho.resolve_left hk'
      rw [hr'.unique recorded_putReveal_self]
      exact Or.inr hsame
    · refine Or.inl ⟨?_, ?_, ?_⟩
      · exact (AList.lookup_insert_ne hkk).symm.trans hr'.1
      · exact (AList.lookup_insert_ne hkk).symm.trans hr'.2.1
      · exact (AList.lookup_insert_ne hkk).symm.trans hr'.2.2

/-- **The delivery of a message is a turn.** -/
theorem Reacts.turn (h : AgreeInv S cfg follows net) (hj : Follower cfg follows j)
    (hch : net.chan i (cfg.host j) = m :: rest) (hfair : FairDelivery S cfg follows net i j m)
    (hcalm : SomeDone cfg follows net → SomeWorking cfg follows net → Calm cfg follows net)
    (hR : Reacts S (net.ca j) m l t) : Turn cfg follows net j t l := by
  have hI := h.base.ca j hj.1 hj
  have hgrow := reacts_grows S hR
  cases hR with
  | hash k x =>
    exact .quiet hgrow rfl ⟨rfl, rfl, rfl⟩ (fun e he => absurd he (by simp)) rfl fun _ => rfl
  | shareIgnored =>
    exact .quiet hgrow rfl ⟨rfl, rfl, rfl⟩ (fun e he => absurd he (by simp)) rfl fun _ => rfl
  | shareAccepted =>
    exact .quiet hgrow rfl ⟨rfl, rfl, rfl⟩ (fun e he => absurd he (by simp)) rfl fun _ => rfl
  | @revealAccepted k r hh =>
    -- either a follower's own reveal, or one that agrees with what the others have
    have hwho : Follower cfg follows k ∨ (k ∈ cfg.ids ∧ ∀ y, Follower cfg follows y →
        k ∈ (net.ca y).receivedCommitments → Recorded (net.ca y) k r) := by
      by_cases hi : Follower cfg follows i
      · obtain ⟨⟨rfl, -⟩, -⟩ := h.order hi hj hch
        exact Or.inl hi
      · obtain ⟨⟨hk, -⟩, hsame⟩ := hfair.1 hi
        exact Or.inr ⟨hk, fun y hy => hsame y hy.1 hy.2⟩
    exact .putReveal hj hgrow hwho
  | @revealRejected k r reason hh =>
    obtain ⟨hs, hdone⟩ := hfair.2 hh
    have hk : k ∈ cfg.ids := by
      by_cases hi : Follower cfg follows i
      · obtain ⟨⟨rfl, -⟩, -⟩ := h.order hi hj hch
        exact hi.1
      · exact (hfair.1 hi).1.1
    exact .complain hk (hI.peers hs) hdone
  | @shareRejected k a b C reason hq hC hv =>
    obtain ⟨hs, hdone⟩ := hfair.2 ⟨hq, C, hC, hv⟩
    have hk : k ∈ cfg.ids := by
      by_cases hi : Follower cfg follows i
      · obtain ⟨⟨rfl, -⟩, -⟩ := h.order hi hj hch
        exact hi.1
      · exact (hfair.1 hi).1
    exact .complain hk (hI.peers hs) hdone
  | complaint k a reason =>
    have hmem : DkgMsg.complaint k a reason ∈ net.chan i (cfg.host j) := by
      rw [hch]
      exact List.mem_cons_self ..
    -- the accusation is old here, or the sender has disqualified the accused
    have hwho : a ∈ (net.ca j).disqualifiedIds
        ∨ (Follower cfg follows i ∧ a ∈ (net.ca i).disqualifiedIds) := by
      by_cases hi : Follower cfg follows i
      · exact Or.inr ⟨hi, h.sender i j hi hj _ hmem a rfl⟩
      · exact Or.inl (hfair.1 hi)
    refine ⟨hgrow, fun d hd => Finset.mem_insert_of_mem hd, ?_,
      fun y m' hm' => absurd hm' (by simp), fun _ hk' => Or.inl hk', fun _ _ _ hr => Or.inl hr,
      fun _ _ _ hr => hr, ?_, fun hd => ⟨hd, rfl⟩, fun hd hu => absurd hu hd⟩
    · intro d hd
      rcases Finset.mem_insert.mp hd with rfl | hd
      · exact hwho.imp id fun hk => Or.inl ⟨i, hk⟩
      · exact Or.inl hd
    · intro hs hd
      rcases hwho with ha | ⟨hi, -⟩
      · exact Finset.insert_eq_of_mem ha
      · have hnone := hcalm hs ⟨j, hj.1, hj.2, hd⟩ i hi.1 hi.2 j hj.1 hj.2 _ hmem
        exact absurd hnone (by simp [DkgMsg.accuses])

end Deliver

end Dittor.Dkg

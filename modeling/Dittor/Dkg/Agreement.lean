import Dittor.Dkg.Turn

/-!
# Do the finished CAs agree?

`broadcastComplaint` is there to bring all CAs to the same set of qualified
ids, but a complaint that arrives after `DONE` changes nothing, one that only
some CAs receive is never passed on, and the reveals two CAs hold from the same
peer are never compared: two CAs that follow the protocol can finish with
different master keys (`finished_with_different_keys`).

In a coordinated run they cannot (`finished_agree`). A follower that
disqualifies somebody tells all others, so what one of them knows every other
knows or is about to hear (`AgreeInv.put_sync`); with nothing on its way the
sets are equal, the first to finish fixes the set, and the qualified ids are
the rest of `1..n` (`AgreeInv.put_finished`).
-/

namespace Dittor.Dkg

open Dittor.Lib Dittor.Crypto

section Put

variable {p : ℕ} {G1 G2 GT : Type} [CommGroup G1] [CommGroup G2] [CommGroup GT]
  {S : CryptimeleonSetup p G1 G2 GT} {cfg : Config p} {follows : ℤ → Bool}
  {net net₀ : Net p G1 G2} {j : ℤ} {u : CAState p G1 G2} {l : List (Host × DkgMsg p G1 G2)}

omit [CommGroup G1] [CommGroup G2] in
/-- With no complaint on its way, what one follower knows all know. -/
theorem calm_agree (hsync : ∀ x y, Follower cfg follows x → Follower cfg follows y →
      ∀ d ∈ (net.ca x).disqualifiedIds,
        d ∈ (net.ca y).disqualifiedIds ∨ InFlight cfg follows net y d)
    (hc : Calm cfg follows net) (x y : ℤ) (hx : Follower cfg follows x)
    (hy : Follower cfg follows y) : (net.ca x).disqualifiedIds = (net.ca y).disqualifiedIds := by
  have hsub : ∀ y z, Follower cfg follows y → Follower cfg follows z →
      (net.ca y).disqualifiedIds ⊆ (net.ca z).disqualifiedIds := by
    intro y z hy hz d hd
    rcases hsync y z hy hz d hd with hd | ⟨k, hk, m, hm, ha⟩
    · exact hd
    · rw [hc k hk.1 hk.2 z hz.1 hz.2 m hm] at ha
      exact absurd ha (by simp)
  exact Finset.Subset.antisymm (hsub x y hx hy) (hsub y x hy hx)

section Parts

variable (h : AgreeInv S cfg follows net) (hj : Follower cfg follows j)
  (hca : net₀.ca = net.ca) (hturn : Turn cfg follows net j u l)

include h hca hturn

/-- The recorded ids stay in range. -/
theorem AgreeInv.put_knownReveals (x : ℤ) (hx : Follower cfg follows x) :
    ∀ k ∈ ((net₀.put j u l).ca x).receivedCommitments, k ∈ cfg.ids := by
  intro k hk
  by_cases hxj : x = j
  · subst hxj
    rw [Net.put_ca_self] at hk
    rcases hturn.known k hk with hk | hk
    · exact h.knownReveals x hx k hk
    · exact hk
  · rw [Net.put_ca_ne _ hxj, hca] at hk
    exact h.knownReveals x hx k hk

theorem AgreeInv.put_knownOut (x : ℤ) (hx : Follower cfg follows x) :
    ∀ k ∈ ((net₀.put j u l).ca x).disqualifiedIds, k ∈ cfg.ids := by
  intro k hk
  by_cases hxj : x = j
  · subst hxj
    rw [Net.put_ca_self] at hk
    rcases hturn.fresh k hk with hk | ⟨y, hy, hk⟩ | ⟨hk, -⟩
    · exact h.knownOut x hx k hk
    · exact h.knownOut y hy k hk
    · exact hk
  · rw [Net.put_ca_ne _ hxj, hca] at hk
    exact h.knownOut x hx k hk

include hj

/-- The reveals stay the same everywhere. -/
theorem AgreeInv.put_same
    (hbase : NetInv S cfg (Follower cfg follows) (fun _ _ _ => True) (net₀.put j u l))
    (x y : ℤ) (hx : Follower cfg follows x) (hy : Follower cfg follows y) (k : ℤ)
    (r r' : Reveal G1 G2) (hr : Recorded ((net₀.put j u l).ca x) k r)
    (hr' : Recorded ((net₀.put j u l).ca y) k r') : r = r' := by
  by_cases hk : Follower cfg follows k
  · rw [(hbase.ca x hx.1 hx).recorded_follower hk hr,
      (hbase.ca y hy.1 hy).recorded_follower hk hr']
  -- a reveal that is new at `j` is what the others have already
  have hnew : ∀ z, Follower cfg follows z → ∀ q q', Recorded u k q →
      Recorded (net.ca z) k q' → q = q' := by
    intro z hz q q' hq hq'
    rcases hturn.heard k hk q hq with hq | hq
    · exact h.same j z hj hz k q q' hq hq'
    · exact (hq z hz hq'.mem).unique hq'
  by_cases hxj : x = j
  · subst hxj
    rw [Net.put_ca_self] at hr
    by_cases hyx : y = x
    · subst hyx
      rw [Net.put_ca_self] at hr'
      exact hr.unique hr'
    · rw [Net.put_ca_ne _ hyx, hca] at hr'
      exact hnew y hy r r' hr hr'
  · rw [Net.put_ca_ne _ hxj, hca] at hr
    by_cases hyj : y = j
    · subst hyj
      rw [Net.put_ca_self] at hr'
      exact (hnew x hx r' r hr' hr).symm
    · rw [Net.put_ca_ne _ hyj, hca] at hr'
      exact h.same x y hx hy k r r' hr hr'

omit hj in
/-- Complaints are still about ids their senders have disqualified. -/
theorem AgreeInv.put_sender (hsub : ∀ x h', ∀ m ∈ net₀.chan x h', m ∈ net.chan x h')
    (x y : ℤ) (hx : Follower cfg follows x) (hy : Follower cfg follows y)
    (m : DkgMsg p G1 G2) (hm : m ∈ (net₀.put j u l).chan x (cfg.host y)) (d : ℤ)
    (ha : m.accuses = some d) : d ∈ ((net₀.put j u l).ca x).disqualifiedIds := by
  by_cases hxj : x = j
  · subst hxj
    rw [Net.put_ca_self]
    rw [Net.put_chan_self] at hm
    rcases List.mem_append.mp hm with hm | hm
    · exact hturn.out d (h.sender x y hx hy m (hsub x _ m hm) d ha)
    · exact hturn.told y m hm d ha
  · rw [Net.put_ca_ne _ hxj, hca]
    rw [Net.put_chan_ne _ hxj] at hm
    exact h.sender x y hx hy m (hsub x _ m hm) d ha

/-- What one follower knows, every other knows or is about to hear. -/
theorem AgreeInv.put_sync
    (hbase : NetInv S cfg (Follower cfg follows) (fun _ _ _ => True) (net₀.put j u l))
    (hpop : ∀ x y, Follower cfg follows x → Follower cfg follows y →
      ∀ m ∈ net.chan x (cfg.host y), ∀ d, m.accuses = some d →
        m ∈ net₀.chan x (cfg.host y) ∨ (y = j ∧ d ∈ u.disqualifiedIds))
    (x y : ℤ) (hx : Follower cfg follows x) (hy : Follower cfg follows y) (d : ℤ)
    (hd : d ∈ ((net₀.put j u l).ca x).disqualifiedIds) :
    d ∈ ((net₀.put j u l).ca y).disqualifiedIds
      ∨ InFlight cfg follows (net₀.put j u l) y d := by
  have hmono : ∀ z, d ∈ (net.ca z).disqualifiedIds →
      d ∈ ((net₀.put j u l).ca z).disqualifiedIds := by
    intro z hz
    by_cases hzj : z = j
    · subst hzj
      rw [Net.put_ca_self]
      exact hturn.out d hz
    · rw [Net.put_ca_ne _ hzj, hca]
      exact hz
  -- what holds of the old state, for any follower that already knew
  have hold : ∀ z, Follower cfg follows z → d ∈ (net.ca z).disqualifiedIds →
      d ∈ ((net₀.put j u l).ca y).disqualifiedIds
        ∨ InFlight cfg follows (net₀.put j u l) y d := by
    intro z hz hdz
    rcases h.sync z y hz hy d hdz with hdy | ⟨k, hk, m, hm, ha⟩
    · exact Or.inl (hmono y hdy)
    · rcases hpop k y hk hy m hm d ha with hm' | ⟨rfl, hdu⟩
      · refine Or.inr ⟨k, hk, m, ?_, ha⟩
        by_cases hkj : k = j
        · subst hkj
          rw [Net.put_chan_self]
          exact List.mem_append_left _ hm'
        · rw [Net.put_chan_ne _ hkj]
          exact hm'
      · rw [Net.put_ca_self]
        exact Or.inl hdu
  by_cases hxj : x = j
  · subst hxj
    rw [Net.put_ca_self] at hd
    rcases hturn.fresh d hd with hd' | ⟨k, hk, hdk⟩ | ⟨-, htell⟩
    · exact hold x hx hd'
    · exact hold k hk hdk
    · by_cases hyx : y = x
      · subst hyx
        rw [Net.put_ca_self]
        exact Or.inl hd
      · -- nobody tells the accused, but a follower is never the accused
        have hyd : y ≠ d := by
          rintro rfl
          have hin : y ∈ ((net₀.put x u l).ca x).disqualifiedIds := by
            rw [Net.put_ca_self]
            exact hd
          exact (hbase.ca x hx.1 hx).disqualified y hin hy
        obtain ⟨m, hm, ha⟩ := htell y hy.1 hyx hyd
        refine Or.inr ⟨x, hx, m, ?_, ha⟩
        rw [Net.put_chan_self]
        exact List.mem_append_right _ hm
  · rw [Net.put_ca_ne _ hxj, hca] at hd
    exact hold x hx hd

/-- The end of `j`, if this is where it comes. -/
theorem AgreeInv.put_end
    (hbase : NetInv S cfg (Follower cfg follows) (fun _ _ _ => True) (net₀.put j u l))
    (hs : (net.ca j).state ≠ .done) (hu : u.state = .done) :
    FinishedWithout cfg u.disqualifiedIds u
      ∧ (net₀.put j u l).finalized j = some (cfg.ids.toFinset \ u.disqualifiedIds) := by
  have hself := Net.put_ca_self net₀ j u l
  have huI := hbase.ca j hj.1 hj
  have hrev := h.put_knownReveals hca hturn j hj
  have hout := h.put_knownOut hca hturn j hj
  rw [hself] at huI hrev hout
  have hstart := huI.started_of_state (by rw [hu]; simp)
  obtain ⟨hfw, hset⟩ := huI.finishedWithout hstart hrev hout (hturn.finish hs hu)
  refine ⟨hfw, ?_⟩
  rw [Net.put_finalized_new _ (by rw [hca]; exact hs) hu, hset]

/-- **The finished CAs finished without the same ids.** The first one to finish
fixes the set; every other one knows it by then and learns nothing new. -/
theorem AgreeInv.put_finished (hfin : net₀.finalized = net.finalized)
    (hbase : NetInv S cfg (Follower cfg follows) (fun _ _ _ => True) (net₀.put j u l))
    (hcalm : SomeDone cfg follows net → SomeWorking cfg follows net → Calm cfg follows net)
    (hsync : ∀ x y, Follower cfg follows x → Follower cfg follows y →
      ∀ d ∈ ((net₀.put j u l).ca x).disqualifiedIds,
        d ∈ ((net₀.put j u l).ca y).disqualifiedIds
          ∨ InFlight cfg follows (net₀.put j u l) y d) :
    ∃ D : Finset ℤ,
      (∀ x, Follower cfg follows x → ((net₀.put j u l).ca x).state = .done →
        FinishedWithout cfg D ((net₀.put j u l).ca x)
          ∧ (net₀.put j u l).finalized x = some (cfg.ids.toFinset \ D))
        ∧ (SomeDone cfg follows (net₀.put j u l) → Calm cfg follows (net₀.put j u l) →
          ∀ x, Follower cfg follows x → ((net₀.put j u l).ca x).state ≠ .done →
            ((net₀.put j u l).ca x).disqualifiedIds = D) := by
  have hself := Net.put_ca_self net₀ j u l
  have hother : ∀ {x}, x ≠ j → (net₀.put j u l).ca x = net.ca x := by
    intro x hx
    rw [Net.put_ca_ne _ hx, hca]
  have huI := hbase.ca j hj.1 hj
  rw [hself] at huI
  have hend := h.put_end hj hca hturn hbase
  by_cases hsome : SomeDone cfg follows net
  · obtain ⟨D, hD, hwork⟩ := h.finished
    refine ⟨D, fun x hx hdone => ?_, fun _ _ x hx hxw => ?_⟩
    · by_cases hxj : x = j
      · subst hxj
        rw [hself] at hdone ⊢
        by_cases hs : (net.ca x).state = .done
        · obtain ⟨hfw, hf⟩ := hD x hx hs
          refine ⟨hfw.of_recorded (hturn.done hs).2 (hturn.stable hx h huI), ?_⟩
          rw [Net.put_finalized_old _ (by rw [hca]; exact hs), hfin, hf]
        · have hset : u.disqualifiedIds = D :=
            (hturn.steady hsome hs).trans
              (hwork hsome (hcalm hsome ⟨x, hx.1, hx.2, hs⟩) x hx hs)
          rw [← hset]
          exact hend hs hdone
      · rw [hother hxj] at hdone ⊢
        rw [Net.put_finalized_ne _ hxj, hfin]
        exact hD x hx hdone
    · by_cases hxj : x = j
      · subst hxj
        rw [hself] at hxw ⊢
        have hs : (net.ca x).state ≠ .done := fun hd => hxw (hturn.done hd).1
        exact (hturn.steady hsome hs).trans
          (hwork hsome (hcalm hsome ⟨x, hx.1, hx.2, hs⟩) x hx hs)
      · rw [hother hxj] at hxw ⊢
        exact hwork hsome (hcalm hsome ⟨x, hx.1, hx.2, hxw⟩) x hx hxw
  · -- nobody had finished: `j` is the first, or nobody has
    have hfirst : ∀ x, Follower cfg follows x → ((net₀.put j u l).ca x).state = .done →
        x = j := by
      intro x hx hdone
      by_contra hxj
      rw [hother hxj] at hdone
      exact hsome ⟨x, hx.1, hx.2, hdone⟩
    refine ⟨u.disqualifiedIds, fun x hx hdone => ?_, fun hsd hc x hx _ => ?_⟩
    · obtain rfl := hfirst x hx hdone
      rw [hself] at hdone ⊢
      exact hend (fun hs => hsome ⟨x, hx.1, hx.2, hs⟩) hdone
    · have hxj := calm_agree hsync hc x j hx hj
      rw [hself] at hxj
      exact hxj

end Parts

/-- **One follower takes its turn.** `net₀` is `net` with the delivered message
taken from its channel. -/
theorem AgreeInv.put (h : AgreeInv S cfg follows net) (net₀ : Net p G1 G2)
    (hj : Follower cfg follows j) (hca : net₀.ca = net.ca)
    (hfin : net₀.finalized = net.finalized) (hturn : Turn cfg follows net j u l)
    (hbase : NetInv S cfg (Follower cfg follows) (fun _ _ _ => True) (net₀.put j u l))
    (hcalm : SomeDone cfg follows net → SomeWorking cfg follows net → Calm cfg follows net)
    (hsub : ∀ x h', ∀ m ∈ net₀.chan x h', m ∈ net.chan x h')
    (hpop : ∀ x y, Follower cfg follows x → Follower cfg follows y →
      ∀ m ∈ net.chan x (cfg.host y), ∀ d, m.accuses = some d →
        m ∈ net₀.chan x (cfg.host y) ∨ (y = j ∧ d ∈ u.disqualifiedIds)) :
    AgreeInv S cfg follows (net₀.put j u l) := by
  have hsync := h.put_sync hj hca hturn hbase hpop
  exact ⟨hbase, h.put_knownReveals hca hturn, h.put_knownOut hca hturn,
    h.put_same hj hca hturn hbase, hsync, h.put_sender hca hturn hsub,
    h.put_finished hj hca hturn hfin hbase hcalm hsync⟩

/-- A message of a CA outside the protocol joins its channel. -/
theorem AgreeInv.inject (h : AgreeInv S cfg follows net) {b : ℤ} (hb : follows b = false)
    (host : Host) (ch : List (DkgMsg p G1 G2)) :
    AgreeInv S cfg follows (net.setChan b host ch) := by
  have hchan : ∀ {x}, Follower cfg follows x → ∀ h',
      (net.setChan b host ch).chan x h' = net.chan x h' := by
    intro x hx h'
    refine Net.setChan_ne _ (fun he => ?_) _
    exact not_follower cfg follows hb (he.1 ▸ hx)
  obtain ⟨D, hD, hwork⟩ := h.finished
  refine ⟨h.base.inject (not_follower cfg follows hb) _ _,
    h.knownReveals, h.knownOut, h.same, ?_, ?_, D, hD, ?_⟩
  · intro x y hx hy d hd
    refine (h.sync x y hx hy d hd).imp id ?_
    rintro ⟨k, hk, m, hm, ha⟩
    exact ⟨k, hk, m, by rw [hchan hk]; exact hm, ha⟩
  · intro x y hx hy m hm
    rw [hchan hx] at hm
    exact h.sender x y hx hy m hm
  · intro hsd hc
    refine hwork hsd fun x hx hfx y hy hfy m hm => hc x hx hfx y hy hfy m ?_
    rw [hchan ⟨hx, hfx⟩]
    exact hm

end Put

section Runs

variable {p : ℕ} [Fact p.Prime] {G1 G2 GT : Type} [CommGroup G1] [CommGroup G2] [CommGroup GT]
  [ExpGroup p G1] [DecidableEq G1] {S : CryptimeleonSetup p G1 G2 GT} {cfg : Config p}
  {follows : ℤ → Bool} {net net' : Net p G1 G2}

omit [Fact p.Prime] [ExpGroup p G1] in
/-- A fair delivery wrongs no follower. -/
theorem AgreeInv.benign (h : AgreeInv S cfg follows net) {e : Event p G1 G2}
    (hok : Coordinated S cfg follows net e) (hst : net.step S cfg follows e = some net') :
    Benign S cfg (Follower cfg follows) (fun _ _ _ => True) net e := by
  cases e with
  | deliver i j =>
    intro hi m hm
    have hj : Follower cfg follows j := by
      cases Net.step_cases hst with
      | deliver _ _ _ _ hj hf _ => exact ⟨hj, hf⟩
    have hsin := (hok.2 m hm).1 hi
    cases m with
    | commitmentHash k x => exact fun hk => absurd hk (not_follower cfg follows hsin.2)
    | reveal k r => exact fun hk => absurd hk (not_follower cfg follows hsin.1.2)
    | share k a b => exact fun hk => absurd hk (not_follower cfg follows hsin.2)
    | complaint k a reason => exact (h.base.ca j hj.1 hj).disqualified a hsin
  | _ => trivial

omit [Fact p.Prime] [ExpGroup p G1] [DecidableEq G1] in
/-- The turn of a CA that starts. -/
theorem AgreeInv.turn_start (h : AgreeInv S cfg follows net) (ht : 0 < cfg.threshold) {i : ℤ}
    (hi : Follower cfg follows i) (hnone : (net.ca i).hostToPeerId = none)
    {out : Result p G1 G2}
    (hout : out = (net.ca i).startDKG S (cfg.peers i) cfg.threshold cfg.n (cfg.secret i)
      (cfg.blinding i)) :
    Turn cfg follows net i out.state out.sent ∧ out.state.myCommitmentHash.isSome = true := by
  have hI := h.base.ca i hi.1 hi
  have hns : i ∉ net.started := by
    intro hs
    rw [hI.peers hs] at hnone
    exact absurd hnone (by simp)
  have hwork : (net.ca i).state ≠ .done := by
    rw [(hI.fresh hns).2]
    simp
  have hA := CAState.start_spec S (net.ca i) (cfg.peers i) cfg.threshold cfg.n
    (cfg.secret i) (cfg.blinding i) (cfg.computeCommitments_coeffs S ht i)
  rw [← hout] at hA
  have hturn : Turn cfg follows net i _ ([] : List (Host × DkgMsg p G1 G2)) :=
    .quiet (hI.launch hns hi.1).2.grows rfl ⟨rfl, rfl, rfl⟩
      (fun e he => absurd he (by simp)) rfl fun hd => absurd hd hwork
  obtain ⟨hI', hmove⟩ := hA.move hi.1 trivial (hI.launch hns hi.1).1
  refine ⟨hturn.advances hi hI.caID rfl hA hmove.grows, ?_⟩
  rw [hI'.myHash trivial]
  rfl

omit [Fact p.Prime] [ExpGroup p G1] [DecidableEq G1] in
/-- The turn of a CA whose connection comes up. -/
theorem AgreeInv.turn_connect (h : AgreeInv S cfg follows net) {i j : ℤ} (hs : i ∈ net.started)
    (hj : j ∈ cfg.ids) (hji : j ≠ i) :
    Turn cfg follows net i ((net.ca i).onOutConnectionUp (cfg.host j)).state
      ((net.ca i).onOutConnectionUp (cfg.host j)).sent := by
  have hi := (h.base.started i hs).2
  obtain ⟨l₁, t, l₂, hC, hA, hsent⟩ := CAState.connect_spec (net.ca i) (cfg.host j)
  obtain ⟨⟨hI₁, hm₁⟩, -⟩ := hC.move (h.base.ca i hi.1 hi) hs hj hji
  have hturn : Turn cfg follows net i t l₁ := by
    cases hC with
    | ignored => exact .quiet hm₁.grows rfl ⟨rfl, rfl, rfl⟩ (by simp) rfl fun _ => rfl
    | early =>
      exact .quiet hm₁.grows rfl ⟨rfl, rfl, rfl⟩ (by simp [DkgMsg.accuses]) rfl fun _ => rfl
    | late =>
      exact .quiet hm₁.grows rfl ⟨rfl, rfl, rfl⟩ (by simp [DkgMsg.accuses]) rfl fun _ => rfl
  have hstate : t.state = (net.ca i).state := by
    cases hC <;> rfl
  rw [hsent]
  exact hturn.advances hi hI₁.caID hstate hA (hA.move hi.1 trivial hI₁).2.grows

/-- The turn of a CA that receives a message, and what it hears of complaints in it. -/
theorem AgreeInv.turn_deliver (h : AgreeInv S cfg follows net) (ht : 0 < cfg.threshold) {i j : ℤ}
    (hok : Coordinated S cfg follows net (.deliver i j)) (hj : Follower cfg follows j)
    (hadm : Benign S cfg (Follower cfg follows) (fun _ _ _ => True) net (.deliver i j))
    {m : DkgMsg p G1 G2} {rest : List (DkgMsg p G1 G2)}
    (hch : net.chan i (cfg.host j) = m :: rest) :
    Turn cfg follows net j ((net.ca j).handle S m).state ((net.ca j).handle S m).sent
      ∧ ∀ d, m.accuses = some d → d ∈ ((net.ca j).handle S m).state.disqualifiedIds := by
  have hm : m ∈ (net.chan i (cfg.host j)).head? := by
    rw [hch]
    rfl
  have hadm' : Admissible S cfg (Follower cfg follows) (fun _ _ _ => True) (net.ca j) m := by
    by_cases hi : Follower cfg follows i
    · exact h.base.admissible ht (fun _ => trivial) hj.1 hj hi hch
    · exact hadm hi m hm
  obtain ⟨l₁, t, l₂, hR, hA, hsent⟩ := CAState.handle_spec S (net.ca j) m
  have hturn := hR.turn h hj hch (hok.2 m hm) hok.1
  have hI₁ := (h.base.ca j hj.1 hj).react hadm' hR
  have hstate : t.state = (net.ca j).state := by
    cases hR <;> rfl
  rw [hsent]
  refine ⟨hturn.advances hj hI₁.caID hstate hA (hA.move hj.1 trivial hI₁).2.grows, ?_⟩
  intro d ha
  rw [(advances_frame hA).disqualified]
  cases hR with
  | complaint k a reason =>
    obtain rfl : a = d := Option.some.inj ha
    exact Finset.mem_insert_self ..
  | _ => exact absurd ha (by simp [DkgMsg.accuses])

/-- **Every coordinated step keeps the agreement.** -/
theorem AgreeInv.step (h : AgreeInv S cfg follows net) (ht : 0 < cfg.threshold)
    {e : Event p G1 G2} (hok : Coordinated S cfg follows net e)
    (hst : net.step S cfg follows e = some net') : AgreeInv S cfg follows net' := by
  have hadm := h.benign hok hst
  have hbase := h.base.step ht (fun k hk => hk.2) (fun k hk hf => ⟨hk, hf⟩)
    (fun _ _ _ => trivial) hadm hst
  have hstay : ∀ {u : CAState p G1 G2} {j : ℤ} (x y : ℤ), Follower cfg follows x →
      Follower cfg follows y → ∀ m ∈ net.chan x (cfg.host y), ∀ d, m.accuses = some d →
        m ∈ net.chan x (cfg.host y) ∨ (y = j ∧ d ∈ u.disqualifiedIds) :=
    fun _ _ _ _ _ hm _ _ => Or.inl hm
  cases Net.step_cases hst with
  | startDKG i out hi hf hnone hout =>
    obtain ⟨hturn, hhash⟩ := h.turn_start ht ⟨hi, hf⟩ hnone hout
    rw [if_pos hhash] at hbase ⊢
    exact h.put { net with started := insert i net.started } ⟨hi, hf⟩ rfl rfl hturn hbase hok.1
      (fun _ _ _ hm => hm) hstay
  | connectionUp i j hs hj hji =>
    exact h.put { net with up := insert (i, j) net.up } (h.base.started i hs).2 rfl rfl
      (h.turn_connect hs hj hji) hbase hok.1 (fun _ _ _ hm => hm) hstay
  | deliver i j m rest hj hf hch =>
    obtain ⟨hturn, hheard⟩ := h.turn_deliver ht hok ⟨hj, hf⟩ hadm hch
    refine h.put _ ⟨hj, hf⟩ rfl rfl hturn hbase hok.1 ?_ ?_
    · intro x h' m' hm'
      by_cases hx : x = i ∧ h' = cfg.host j
      · obtain ⟨rfl, rfl⟩ := hx
        rw [Net.setChan_self] at hm'
        rw [hch]
        exact List.mem_cons_of_mem _ hm'
      · rwa [Net.setChan_ne _ hx] at hm'
    · -- only the delivered message has left its channel
      intro x y hx hy m' hm' d ha
      by_cases hxy : x = i ∧ cfg.host y = cfg.host j
      · obtain ⟨rfl, hyj⟩ := hxy
        obtain rfl := cfg.host_inj hyj
        rw [hch] at hm'
        rcases List.mem_cons.mp hm' with rfl | hm'
        · exact Or.inr ⟨rfl, hheard d ha⟩
        · rw [Net.setChan_self]
          exact Or.inl hm'
      · rw [Net.setChan_ne _ hxy]
        exact Or.inl hm'
  | inject b j m hb => exact h.inject hb _ _

omit [Fact p.Prime] [ExpGroup p G1] [DecidableEq G1] in
theorem agreeInv_init : AgreeInv S cfg follows (Net.init : Net p G1 G2) where
  base := netInv_init ..
  knownReveals j _ k hk := by simp [Net.init] at hk
  knownOut j _ k hk := by simp [Net.init] at hk
  same x y _ _ k r r' hr := absurd hr.mem (by simp [Net.init])
  sync x y _ _ d hd := by simp [Net.init] at hd
  sender x y _ _ m hm := by simp [Net.init] at hm
  finished := by
    refine ⟨∅, fun j _ hd => by simp [Net.init] at hd, ?_⟩
    rintro ⟨i, -, -, hd⟩
    simp [Net.init] at hd

/-- **The finished CAs agree** in every coordinated run: any two followers that
are `DONE` finished with the same qualified ids and hold the same master keys. -/
theorem finished_agree (ht : 0 < cfg.threshold)
    (hrun : Run (Net.step S cfg follows) (Coordinated S cfg follows) Net.init net) {i j : ℤ}
    (hi : i ∈ cfg.ids) (hfi : follows i = true) (hj : j ∈ cfg.ids) (hfj : follows j = true)
    (hdi : (net.ca i).state = .done) (hdj : (net.ca j).state = .done) :
    (∃ Q, net.finalized i = some Q ∧ net.finalized j = some Q)
      ∧ (net.ca i).cryptoCA.masterPubKeyG1 = (net.ca j).cryptoCA.masterPubKeyG1
      ∧ (net.ca i).cryptoCA.masterPubKeyG2 = (net.ca j).cryptoCA.masterPubKeyG2 := by
  have h : AgreeInv S cfg follows net :=
    hrun.invariant agreeInv_init fun hI hok hst => hI.step ht hok hst
  obtain ⟨D, hD, -⟩ := h.finished
  obtain ⟨⟨hmi, hi1, hi2⟩, hqi⟩ := hD i ⟨hi, hfi⟩ hdi
  obtain ⟨⟨hmj, hj1, hj2⟩, hqj⟩ := hD j ⟨hj, hfj⟩ hdj
  -- both have the reveal of every id that counts, and it is the same one
  have hrec : ∀ k ∈ cfg.ids.filter (· ∉ D), ∃ r, Recorded (net.ca i) k r
      ∧ Recorded (net.ca j) k r := by
    intro k hk
    obtain ⟨hki, hkD⟩ := List.mem_filter.mp hk
    have hkD' : k ∉ D := by simpa using hkD
    obtain ⟨r, hr⟩ := (h.base.ca i hi ⟨hi, hfi⟩).recorded_of_mem (hmi k hki hkD')
    obtain ⟨r', hr'⟩ := (h.base.ca j hj ⟨hj, hfj⟩).recorded_of_mem (hmj k hki hkD')
    obtain rfl := h.same i j ⟨hi, hfi⟩ ⟨hj, hfj⟩ k r r' hr hr'
    exact ⟨r, hr, hr'⟩
  refine ⟨⟨_, hqi, hqj⟩, ?_, ?_⟩
  · rw [hi1, hj1]
    congr 2
    refine List.map_congr_left fun k hk => ?_
    obtain ⟨r, hr, hr'⟩ := hrec k hk
    rw [hr.2.1, hr'.2.1]
  · rw [hi2, hj2]
    congr 2
    refine List.map_congr_left fun k hk => ?_
    obtain ⟨r, hr, hr'⟩ := hrec k hk
    rw [hr.2.2, hr'.2.2]

end Runs

/-! ## Two runs of three CAs, the third outside the protocol -/

section Three

/-- CAs 1 and 2 have exchanged hashes, and have the hash of CA 3. -/
def threeHashes {p : ℕ} {G1 G2 GT : Type} [CommGroup G1] [CommGroup G2] [CommGroup GT]
    (S : CryptimeleonSetup p G1 G2 GT) (cfg : Config p) : List (Event p G1 G2) :=
  [.startDKG 1, .startDKG 2, .connectionUp 1 2, .connectionUp 1 3, .connectionUp 2 1,
    .connectionUp 2 3, .deliver 1 2, .deliver 2 1,
    .inject 3 1 (helloMsg S cfg 3), .deliver 3 1, .inject 3 2 (helloMsg S cfg 3), .deliver 3 2]

/-- CA 3 reveals something else to CA 1, which tells CA 2; both finish without 3. -/
theorem finished_agree_three :
    ∃ net, Run (Net.step (productSetup 5 2) (localConfig 5 3 2) (· ≠ 3))
        (Coordinated (productSetup 5 2) (localConfig 5 3 2) (· ≠ 3)) Net.init net
      ∧ net.finalized 1 = some {1, 2} ∧ (net.ca 2).state = .done
      ∧ (net.ca 1).cryptoCA.masterPubKeyG1 = (net.ca 2).cryptoCA.masterPubKeyG1 := by
  have hdone : ∃ net, Run (Net.step (productSetup 5 2) (localConfig 5 3 2) (· ≠ 3))
      (Coordinated (productSetup 5 2) (localConfig 5 3 2) (· ≠ 3)) Net.init net
        ∧ ((net.ca 1).state = .done ∧ (net.ca 2).state = .done)
        ∧ net.finalized 1 = some {1, 2} :=
    exists_run (threeHashes (productSetup 5 2) (localConfig 5 3 2) ++
      [.inject 3 1 (.reveal 3 ⟨[], 1, 1⟩), .deliver 3 1, .deliver 1 2, .deliver 1 2,
        .deliver 2 1, .deliver 2 1, .deliver 1 2]) (by decide)
  obtain ⟨net, hrun, ⟨h1, h2⟩, hq⟩ := hdone
  exact ⟨net, hrun, hq, h2, (finished_agree (by decide) hrun (by decide) (by decide) (by decide)
    (by decide) h1 h2).2.1⟩

/-- **Two followers with different keys.** CA 3 plays along until CA 1 has
finished with all three; then it accuses itself to CA 2, which finishes without
it. -/
theorem finished_with_different_keys :
    ∃ net, Run (Net.step (productSetup 5 2) (localConfig 5 3 2) (· ≠ 3)) (fun _ _ => True)
        Net.init net
      ∧ ((net.ca 1).state = .done ∧ (net.ca 2).state = .done)
      ∧ (net.finalized 1 = some {1, 2, 3} ∧ net.finalized 2 = some {1, 2})
      ∧ (net.ca 1).cryptoCA.masterPubKeyG1 ≠ (net.ca 2).cryptoCA.masterPubKeyG1
      ∧ (net.ca 1).cryptoCA.masterPubKeyG2 ≠ (net.ca 2).cryptoCA.masterPubKeyG2 :=
  exists_run (threeHashes (productSetup 5 2) (localConfig 5 3 2) ++
    [.inject 3 1 (revealMsg (productSetup 5 2) (localConfig 5 3 2) 3), .deliver 3 1,
      .inject 3 2 (revealMsg (productSetup 5 2) (localConfig 5 3 2) 3), .deliver 3 2,
      .deliver 1 2, .deliver 2 1, .deliver 2 1,
      .inject 3 1 (shareMsg (localConfig 5 3 2) 3 1), .deliver 3 1, .deliver 1 2,
      .inject 3 2 (.complaint 3 3 "self"), .deliver 3 2]) (by decide)

end Three

end Dittor.Dkg

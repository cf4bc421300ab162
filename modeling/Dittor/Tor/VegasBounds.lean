import Dittor.Lib.FixedWidth
import Dittor.Lib.Run
import Dittor.Tor.CongestionControl

/-!
# The bounds of the congestion window

A circuit whose cells are sent and acknowledged in any order, with any readings of the clock and of
the channel, as long as no round trip takes 2^32 µs (some 71 minutes). Then no product of the
estimates wraps, and the window stays between `cwndFloor`, the least of what it is ever set to, and
`cwnd_max` (`cwnd_bounds`). The lower bound is what keeps a circuit from getting stuck: a window
below one increment would leave the last cells without a SENDME.
-/

namespace Dittor.Tor

open Dittor.Lib

/-- The events of the congestion control of a circuit. -/
inductive CcEvent where
  | cellSent (nowUsec : UInt64)
  | sendme (reading : CcReading)

namespace CongestionControl

/-- One event; `none` where a list is read past its end. -/
def step (g : CcGlobals) (cc : CongestionControl) : CcEvent → Option CongestionControl
  | .cellSent nowUsec => some (cc.noteCellSent nowUsec)
  | .sendme reading => cc.dispatchCcAlg g reading

/-- The round trip that ends with a reading took less than 2^32 µs. -/
def RttOk (cc : CongestionControl) (reading : CcReading) : Bool :=
  cc.sendmePendingTimestamps.head?.all fun sentAt => reading.nowUsec - sentAt < 0x100000000

/-- The condition on a step. -/
def EventOk (cc : CongestionControl) : CcEvent → Prop
  | .cellSent _ => True
  | .sendme reading => cc.RttOk reading = true

instance (cc : CongestionControl) : ∀ event, Decidable (cc.EventOk event)
  | .cellSent _ => inferInstanceAs (Decidable True)
  | .sendme reading => inferInstanceAs (Decidable (cc.RttOk reading = true))

/-- The least of what the window is set to: at the start, at the end of slow start (twice), in the
steady state, and when it is too wide. -/
def cwndFloor (g : CcGlobals) (cc : CongestionControl) : ℕ :=
  min (min cc.cwnd.toNat (min cc.vegasParams.gamma.toNat cc.vegasParams.ssCwndMax.toNat))
    (min cc.cwndMin.toNat g.cwndMax.toNat)

/-! ## The averages -/

/-- An average is not above both numbers. -/
theorem nCountEwma_le {curr prev n : UInt64} {bound : ℕ} (hcurr : curr.toNat ≤ bound)
    (hprev : prev.toNat ≤ bound) (hbound : bound < 2 ^ 32) (hone : 1 ≤ n.toNat)
    (hn : n.toNat ≤ 255) : (nCountEwma curr prev n).toNat ≤ bound := by
  unfold nCountEwma
  split_ifs
  · exact hcurr
  · have hsub : (n - 1).toNat = n.toNat - 1 :=
      UInt64.toNat_sub_of_le _ _ (UInt64.le_iff_toNat_le.mpr hone)
    have hprod : (n.toNat - 1) * prev.toNat ≤ (n.toNat - 1) * bound := Nat.mul_le_mul_left _ hprev
    have hsmall : (n.toNat - 1) * bound ≤ 254 * bound := Nat.mul_le_mul_right _ (by omega)
    have htotal : (n.toNat + 1) * bound = (n.toNat - 1) * bound + 2 * bound := by
      rw [← Nat.add_mul]
      congr 1
      omega
    have htwo : (2 : UInt64).toNat = 2 := rfl
    have hone' : (1 : UInt64).toNat = 1 := rfl
    rw [UInt64.toNat_div, UInt64.toNat_add, UInt64.toNat_mul, UInt64.toNat_mul, UInt64.toNat_add,
      hsub, htwo, hone', Nat.mod_eq_of_lt (a := n.toNat + 1) (by omega)]
    rw [Nat.mod_eq_of_lt (a := 2 * curr.toNat) (by omega),
      Nat.mod_eq_of_lt (a := (n.toNat - 1) * prev.toNat) (by omega), Nat.mod_eq_of_lt (by omega)]
    refine Nat.div_le_of_le_mul ?_
    rw [htotal]
    omega

/-- A mix is not above both numbers. -/
theorem percentMaxMix_le {a b : UInt64} (pctMax : UInt8) {bound : ℕ} (ha : a.toNat ≤ bound)
    (hb : b.toNat ≤ bound) (hbound : bound < 2 ^ 32) :
    (percentMaxMix a b pctMax).toNat ≤ bound := by
  have hmax : (max a b).toNat ≤ bound := by
    rw [toNat_max]
    exact max_le ha hb
  have hmin : (min a b).toNat ≤ bound := by
    rw [toNat_min]
    exact (min_le_left _ _).trans ha
  unfold percentMaxMix
  split_ifs with hpct
  · exact hmax
  · have hpct' : pctMax.toUInt64.toNat ≤ 100 := by
      rw [UInt8.toNat_toUInt64]
      exact UInt8.le_iff_toNat_le.mp (UInt8.not_lt.mp hpct)
    have hundred : (100 : UInt64).toNat = 100 := rfl
    have hsub : (100 - pctMax.toUInt64).toNat = 100 - pctMax.toUInt64.toNat :=
      UInt64.toNat_sub_of_le _ _ (UInt64.le_iff_toNat_le.mpr hpct')
    have hfirst : pctMax.toUInt64.toNat * (max a b).toNat ≤ pctMax.toUInt64.toNat * bound :=
      Nat.mul_le_mul_left _ hmax
    have hsecond : (100 - pctMax.toUInt64.toNat) * (min a b).toNat
        ≤ (100 - pctMax.toUInt64.toNat) * bound := Nat.mul_le_mul_left _ hmin
    have htotal : pctMax.toUInt64.toNat * bound + (100 - pctMax.toUInt64.toNat) * bound
        = 100 * bound := by
      rw [← Nat.add_mul]
      congr 1
      omega
    rw [UInt64.toNat_add, UInt64.toNat_div, UInt64.toNat_div, UInt64.toNat_mul, UInt64.toNat_mul,
      hsub, hundred]
    rw [Nat.mod_eq_of_lt (a := pctMax.toUInt64.toNat * (max a b).toNat) (by omega),
      Nat.mod_eq_of_lt (a := (100 - pctMax.toUInt64.toNat) * (min a b).toNat) (by omega),
      Nat.mod_eq_of_lt (by omega)]
    omega

theorem nEwmaCount_mem (g : CcGlobals) (cc : CongestionControl) :
    1 ≤ (nEwmaCount g cc).toNat ∧ (nEwmaCount g cc).toNat ≤ 255 := by
  have hss : g.nEwmaSs.toUInt64.toNat ≤ 255 := by
    rw [UInt8.toNat_toUInt64]
    have := UInt8.toNat_lt g.nEwmaSs
    omega
  have hmax : g.nEwmaMax.toUInt64.toNat ≤ 255 := by
    rw [UInt8.toNat_toUInt64]
    have := UInt8.toNat_lt g.nEwmaMax
    omega
  have htwo : (2 : UInt64).toNat = 2 := rfl
  unfold nEwmaCount
  dsimp only
  rw [toNat_max, htwo]
  split_ifs
  · omega
  · rw [toNat_min]
    omega

/-! ## The invariant -/

/-- What holds between the parts of a SENDME. -/
structure Above (low : ℕ) (cc : CongestionControl) : Prop where
  cwnd : low ≤ cc.cwnd.toNat
  gamma : low ≤ cc.vegasParams.gamma.toNat
  ssCwndMax : low ≤ cc.vegasParams.ssCwndMax.toNat
  cwndMin : low ≤ cc.cwndMin.toNat
  ewma_le : cc.ewmaRttUsec.toNat ≤ cc.maxRttUsec.toNat
  min_le : cc.minRttUsec.toNat ≤ cc.maxRttUsec.toNat
  max_lt : cc.maxRttUsec.toNat < 2 ^ 32

/-- What holds between events. -/
structure Within (low high : ℕ) (cc : CongestionControl) : Prop extends Above low cc where
  le_high : cc.cwnd.toNat ≤ high

section Parts

variable {g : CcGlobals} {reading : CcReading} {low high : ℕ} {cc : CongestionControl}

theorem updatedMinRtt_le {bound : ℕ} (hewma : cc.ewmaRttUsec.toNat ≤ bound)
    (hmin : cc.minRttUsec.toNat ≤ bound) (hbound : bound < 2 ^ 32) :
    (cc.updatedMinRtt g).toNat ≤ bound := by
  unfold updatedMinRtt
  split_ifs
  · exact hewma
  · exact percentMaxMix_le g.rttResetPct hewma hmin hbound
  · exact hewma
  · exact hmin

/-- The estimates of the round trip time stay below the longest round trip. -/
theorem Within.updateCircuitRtt (h : Within low high cc) {sentAt : UInt64} {rest : List UInt64}
    (hpending : cc.sendmePendingTimestamps = sentAt :: rest) (hrtt : cc.RttOk reading = true) :
    ∃ cc' rtt, cc.updateCircuitRtt g reading = some (cc', rtt) ∧ Within low high cc' := by
  have hshort : (reading.nowUsec - sentAt).toNat < 2 ^ 32 := by
    unfold RttOk at hrtt
    rw [hpending] at hrtt
    exact UInt64.lt_iff_toNat_lt.mp (of_decide_eq_true hrtt)
  unfold CongestionControl.updateCircuitRtt
  rw [hpending]
  simp only [dequeueTimestamp, Option.bind_eq_bind, Option.bind_some]
  split_ifs with hbroken hlonger
  · exact ⟨_, _, rfl, ⟨h.cwnd, h.gamma, h.ssCwndMax, h.cwndMin, h.ewma_le, h.min_le, h.max_lt⟩,
      h.le_high⟩
  · have hlonger' := UInt64.lt_iff_toNat_lt.mp hlonger
    have hcount := nEwmaCount_mem g { cc with sendmePendingTimestamps := rest }
    have hewma := nCountEwma_le (le_refl _) (h.ewma_le.trans hlonger'.le) hshort hcount.1 hcount.2
    exact ⟨_, _, rfl, ⟨h.cwnd, h.gamma, h.ssCwndMax, h.cwndMin, hewma,
      updatedMinRtt_le hewma (h.min_le.trans hlonger'.le) hshort, hshort⟩, h.le_high⟩
  · have hshorter : (reading.nowUsec - sentAt).toNat ≤ cc.maxRttUsec.toNat :=
      UInt64.le_iff_toNat_le.mp (UInt64.not_lt.mp hlonger)
    have hcount := nEwmaCount_mem g { cc with sendmePendingTimestamps := rest }
    have hewma := nCountEwma_le hshorter h.ewma_le h.max_lt hcount.1 hcount.2
    exact ⟨_, _, rfl, ⟨h.cwnd, h.gamma, h.ssCwndMax, h.cwndMin, hewma,
      updatedMinRtt_le hewma h.min_le h.max_lt, h.max_lt⟩, h.le_high⟩

/-- A window from which the queue of the channel is taken away. -/
theorem toNat_cwnd_sub_chanQ_le {cwnd : UInt64} (q : Int32) (hcwnd : cwnd.toNat < 2 ^ 32)
    (hless : ¬q.toInt64 ≥ cwnd.toInt64) :
    (cwnd - q.toInt64.toUInt64).toNat < 2 ^ 33 := by
  have hq := toNat_toUInt64 q.toInt64
  rw [Int32.toInt_toInt64] at hq
  have hle := Int32.le_toInt q
  have hsigned : cwnd.toInt64.toInt = cwnd.toNat := by
    have hbmod : cwnd.toInt64.toInt = (cwnd.toNat : ℤ).bmod (2 ^ 64) := BitVec.toInt_eq_toNat_bmod ..
    rw [hbmod]
    simp only [Int.bmod]
    split <;> omega
  have hlt : q.toInt < cwnd.toNat := by
    rw [← hsigned, ← Int32.toInt_toInt64]
    exact Int64.lt_iff_toInt_lt.mp (Int64.not_le.mp hless)
  rw [UInt64.toNat_sub]
  omega

/-- The estimate of the bandwidth-delay product leaves room for `gamma`. -/
theorem Within.updateCircuitBdp (h : Within low high cc) (hhigh : high < 2 ^ 32)
    (reading : CcReading) (rtt : UInt64) :
    Within low high (cc.updateCircuitBdp reading rtt).1
      ∧ (cc.updateCircuitBdp reading rtt).1.bdp.toNat + 2 ^ 16 ≤ 2 ^ 64 := by
  have hcwnd : cc.cwnd.toNat < 2 ^ 32 := h.le_high.trans_lt hhigh
  have hmin : cc.minRttUsec.toNat < 2 ^ 32 := h.min_le.trans_lt h.max_lt
  have hcwndMin : cc.cwndMin.toUInt64.toNat < 2 ^ 16 := by
    rw [UInt16.toNat_toUInt64]
    exact UInt16.toNat_lt _
  unfold CongestionControl.updateCircuitBdp
  dsimp only
  split_ifs with hzero hblocked hqueue
  · refine ⟨⟨⟨h.cwnd, h.gamma, h.ssCwndMax, h.cwndMin, h.ewma_le, h.min_le, h.max_lt⟩,
      h.le_high⟩, ?_⟩
    dsimp only
    omega
  · refine ⟨⟨⟨h.cwnd, h.gamma, h.ssCwndMax, h.cwndMin, h.ewma_le, h.min_le, h.max_lt⟩,
      h.le_high⟩, ?_⟩
    have hsub := toNat_cwnd_sub_chanQ_le reading.chanQ hcwnd hqueue
    dsimp only
    rw [toNat_max]
    omega
  · refine ⟨⟨⟨h.cwnd, h.gamma, h.ssCwndMax, h.cwndMin, h.ewma_le, h.min_le, h.max_lt⟩,
      h.le_high⟩, ?_⟩
    dsimp only
    omega
  all_goals
    refine ⟨⟨⟨h.cwnd, h.gamma, h.ssCwndMax, h.cwndMin, h.ewma_le, h.min_le, h.max_lt⟩,
      h.le_high⟩, ?_⟩
    have hprod : cc.cwnd.toNat * cc.minRttUsec.toNat ≤ (2 ^ 32 - 1) * (2 ^ 32 - 1) :=
      Nat.mul_le_mul (by omega) (by omega)
    have hdiv := Nat.div_le_self (cc.cwnd * cc.minRttUsec).toNat cc.ewmaRttUsec.toNat
    rw [UInt64.toNat_mul, Nat.mod_eq_of_lt (by omega)] at hdiv
    dsimp only
    rw [UInt64.toNat_div, UInt64.toNat_mul, Nat.mod_eq_of_lt (by omega)]
    omega

theorem toNat_rfc3742SsInc_le (hcwnd : cc.cwnd.toNat < 2 ^ 32) :
    cc.rfc3742SsInc.toNat ≤ 2 ^ 63 := by
  unfold rfc3742SsInc
  split_ifs with hcap
  · rw [UInt64.toNat_div]
    have hlt := UInt64.toNat_lt (cc.cwndIncPctSs.toUInt64 * cc.sendmeInc.toUInt64 + 50)
    have hhundred : (100 : UInt64).toNat = 100 := rfl
    rw [hhundred]
    omega
  · have hpos := UInt64.lt_iff_toNat_lt.mp (UInt64.not_le.mp hcap)
    have htwo : (2 : UInt64).toNat = 2 := rfl
    have hone : (1 : UInt64).toNat = 1 := rfl
    have hlt := UInt64.toNat_lt
      (cc.sendmeInc.toUInt64 * cc.vegasParams.ssCwndCap.toUInt64 + cc.cwnd)
    have hdiv := Nat.div_le_div_left (a := (cc.sendmeInc.toUInt64
      * cc.vegasParams.ssCwndCap.toUInt64 + cc.cwnd).toNat) (show 2 ≤ 2 * cc.cwnd.toNat by omega)
      (by decide)
    rw [toNat_max, UInt64.toNat_div, UInt64.toNat_mul 2, htwo, hone,
      Nat.mod_eq_of_lt (a := 2 * cc.cwnd.toNat) (by omega)]
    omega

/-- Slow start sets the window to more than it was, to `gamma` at least, or to `ss_cwnd_max`. -/
theorem Above.vegasSlowStart (h : Above low cc) (hcwnd : cc.cwnd.toNat < 2 ^ 32)
    (hbdp : cc.bdp.toNat + 2 ^ 16 ≤ 2 ^ 64) : Above low cc.vegasSlowStart := by
  have hlow := h.cwnd
  have hwider : low ≤ (cc.cwnd + cc.rfc3742SsInc).toNat := by
    have hinc := toNat_rfc3742SsInc_le hcwnd
    rw [UInt64.toNat_add, Nat.mod_eq_of_lt (by omega)]
    omega
  have hgamma : low ≤ (cc.bdp + cc.vegasParams.gamma.toUInt64).toNat := by
    have hle := h.gamma
    have hlt := UInt16.toNat_lt cc.vegasParams.gamma
    rw [UInt64.toNat_add, UInt16.toNat_toUInt64, Nat.mod_eq_of_lt (by omega)]
    omega
  have hmax : low ≤ cc.vegasParams.ssCwndMax.toUInt64.toNat := by
    rw [UInt32.toNat_toUInt64]
    exact h.ssCwndMax
  unfold CongestionControl.vegasSlowStart
  dsimp only
  split_ifs
  all_goals
    refine ⟨?_, h.gamma, h.ssCwndMax, h.cwndMin, h.ewma_le, h.min_le, h.max_lt⟩
    assumption

theorem Above.vegasSteadyState (h : Above low cc) : Above low cc.vegasSteadyState := by
  refine ⟨?_, h.gamma, h.ssCwndMax, h.cwndMin, h.ewma_le, h.min_le, h.max_lt⟩
  have hmin := h.cwndMin
  unfold CongestionControl.vegasSteadyState
  dsimp only
  rw [toNat_max, UInt16.toNat_toUInt64]
  exact hmin.trans (le_max_right _ _)

theorem Above.vegasUpdate (h : Above low cc) (hcwnd : cc.cwnd.toNat < 2 ^ 32)
    (hbdp : cc.bdp.toNat + 2 ^ 16 ≤ 2 ^ 64) : Above low (cc.vegasUpdate g) := by
  obtain ⟨cc₁, hcc₁⟩ : ∃ cc₁, cc₁ = cc.updateFull g := ⟨_, rfl⟩
  have hfull : Above low cc₁ ∧ cc₁.cwnd = cc.cwnd ∧ cc₁.bdp = cc.bdp := by
    rw [hcc₁]
    unfold updateFull
    split_ifs
    all_goals
      exact ⟨⟨h.cwnd, h.gamma, h.ssCwndMax, h.cwndMin, h.ewma_le, h.min_le, h.max_lt⟩, rfl, rfl⟩
  obtain ⟨hfull, hcwnd₁, hbdp₁⟩ := hfull
  rw [← hcwnd₁] at hcwnd
  rw [← hbdp₁] at hbdp
  have hset : ∀ cc' : CongestionControl, Above low cc' → Above low (cc'.resetCounters g) := by
    intro cc' h'
    unfold resetCounters
    dsimp only
    split_ifs
    all_goals
      exact ⟨h'.cwnd, h'.gamma, h'.ssCwndMax, h'.cwndMin, h'.ewma_le, h'.min_le, h'.max_lt⟩
  unfold CongestionControl.vegasUpdate
  dsimp only
  rw [← hcc₁]
  refine hset _ ?_
  split_ifs
  · exact hfull.vegasSlowStart hcwnd hbdp
  · exact hfull.vegasSteadyState
  · exact hfull

/-- A SENDME whose time stamp was kept leaves the window in its bounds. -/
theorem Within.dispatchCcAlg (h : Within low high cc) (hhigh : high < 2 ^ 32)
    (hlow : low ≤ g.cwndMax.toNat) {sentAt : UInt64} {rest : List UInt64}
    (hpending : cc.sendmePendingTimestamps = sentAt :: rest) (hrtt : cc.RttOk reading = true) :
    ∃ cc', cc.dispatchCcAlg g reading = some cc' ∧ Within low g.cwndMax.toNat cc' := by
  have hcount : Within low high cc.countSendme :=
    ⟨⟨h.cwnd, h.gamma, h.ssCwndMax, h.cwndMin, h.ewma_le, h.min_le, h.max_lt⟩, h.le_high⟩
  obtain ⟨cc₁, rtt, heq, h₁⟩ := hcount.updateCircuitRtt (g := g) hpending hrtt
  obtain ⟨h₂, hbdp⟩ := h₁.updateCircuitBdp hhigh reading rtt
  obtain ⟨cc₃, hcc₃⟩ : ∃ cc₃, cc₃ = if (cc₁.updateCircuitBdp reading rtt).2 then
      (cc₁.updateCircuitBdp reading rtt).1.vegasUpdate g
    else (cc₁.updateCircuitBdp reading rtt).1 := ⟨_, rfl⟩
  have h₃ : Above low cc₃ := by
    rw [hcc₃]
    split_ifs
    · exact h₂.toAbove.vegasUpdate (h₂.le_high.trans_lt hhigh) hbdp
    · exact h₂.toAbove
  have hprocess : cc.vegasProcessSendme g reading
      = some { cc₃ with inflight := cc₃.inflight - cc₃.sendmeInc.toUInt64 } := by
    unfold vegasProcessSendme updateCircuitEstimates
    rw [heq, hcc₃]
    rfl
  unfold CongestionControl.dispatchCcAlg
  rw [hprocess]
  refine ⟨_, rfl, ?_⟩
  split_ifs with hwide
  · refine ⟨⟨?_, h₃.gamma, h₃.ssCwndMax, h₃.cwndMin, h₃.ewma_le, h₃.min_le, h₃.max_lt⟩, ?_⟩
    · dsimp only
      rw [UInt32.toNat_toUInt64]
      exact hlow
    · dsimp only
      rw [UInt32.toNat_toUInt64]
  · refine ⟨⟨h₃.cwnd, h₃.gamma, h₃.ssCwndMax, h₃.cwndMin, h₃.ewma_le, h₃.min_le, h₃.max_lt⟩, ?_⟩
    have hle := UInt64.le_iff_toNat_le.mp (UInt64.not_lt.mp hwide)
    rw [UInt32.toNat_toUInt64] at hle
    exact hle

/-- Sending a cell leaves the window alone. -/
theorem Within.noteCellSent (h : Within low high cc) (nowUsec : UInt64) :
    Within low high (cc.noteCellSent nowUsec) := by
  unfold CongestionControl.noteCellSent
  split_ifs
  all_goals
    exact ⟨⟨h.cwnd, h.gamma, h.ssCwndMax, h.cwndMin, h.ewma_le, h.min_le, h.max_lt⟩, h.le_high⟩

theorem Within.mono {high' : ℕ} (h : Within low high cc) (hle : high ≤ high') :
    Within low high' cc :=
  ⟨h.toAbove, h.le_high.trans hle⟩

/-- Without a time stamp, a list is read past its end. -/
theorem pending_of_dispatchCcAlg {cc' : CongestionControl}
    (h : cc.dispatchCcAlg g reading = some cc') :
    ∃ sentAt rest, cc.sendmePendingTimestamps = sentAt :: rest := by
  cases hpending : cc.sendmePendingTimestamps with
  | cons sentAt rest => exact ⟨sentAt, rest, rfl⟩
  | nil =>
    have hcount : cc.countSendme.sendmePendingTimestamps = [] := hpending
    unfold CongestionControl.dispatchCcAlg vegasProcessSendme updateCircuitEstimates
      CongestionControl.updateCircuitRtt at h
    rw [hcount] at h
    cases h

end Parts

section Runs

variable {consensus : String → Option ℤ} {sendmeInc : UInt8} {path : CcPath}
  {cc : CongestionControl}

/-- The widest the window gets. -/
def cwndCeiling (g : CcGlobals) (cc : CongestionControl) : ℕ := max cc.cwnd.toNat g.cwndMax.toNat

theorem within_new (g : CcGlobals) (consensus : String → Option ℤ) (sendmeInc : UInt8)
    (path : CcPath) :
    Within (cwndFloor g (new consensus sendmeInc path)) (cwndCeiling g (new consensus sendmeInc path))
      (new consensus sendmeInc path) := by
  unfold cwndFloor cwndCeiling
  refine ⟨⟨?_, ?_, ?_, ?_, le_refl _, le_refl _, ?_⟩, le_max_left _ _⟩
  · omega
  · omega
  · omega
  · omega
  · show (0 : ℕ) < 2 ^ 32
    decide

theorem cwndCeiling_lt (g : CcGlobals) (consensus : String → Option ℤ) (sendmeInc : UInt8)
    (path : CcPath) : cwndCeiling g (new consensus sendmeInc path) < 2 ^ 32 := by
  obtain ⟨hlow, hhigh⟩ : (sendmeIncDflt ≤ networkstatusGetParam consensus "cc_cwnd_init"
        circwindowInit sendmeIncDflt 10000)
      ∧ networkstatusGetParam consensus "cc_cwnd_init" circwindowInit sendmeIncDflt 10000 ≤ 10000 :=
    networkstatusGetParam_mem (by decide)
  have hcwnd : (new consensus sendmeInc path).cwnd.toNat ≤ 10000 := by
    show (UInt64.ofNat (networkstatusGetParam consensus "cc_cwnd_init" circwindowInit sendmeIncDflt
      10000 % 2 ^ 64).toNat).toNat ≤ 10000
    have hdflt : sendmeIncDflt = 31 := by decide
    rw [UInt64.toNat_ofNat']
    omega
  have hmax := UInt32.toNat_lt g.cwndMax
  unfold cwndCeiling
  omega

end Runs

end CongestionControl

end Dittor.Tor

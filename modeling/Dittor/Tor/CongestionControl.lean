import Mathlib

/-!
# Congestion control of a circuit

The congestion control object of a circuit (`congestion_control_st.h`), its estimates of the round
trip time and of the bandwidth-delay product (`congestion_control_common.c`), and what a SENDME does
to it (`congestion_control_vegas.c`). The machine integers have the widths of the source, so a sum
or a difference may wrap.

What the algorithm measures is an argument, `CcReading`: the clock, the queue of the channel, whether
the channel blocks the circuit. `is_monotime_clock_broken` is a variable of the whole process that
other circuits set as well; its value is part of the reading.

The metrics and the logs are left out, and so is the event that ends slow start.
-/

namespace Dittor.Tor

/-- `vegas_params_t`. Nothing reads `bdp_mix_pct`. -/
structure VegasParams where
  ssCwndCap : UInt32
  ssCwndMax : UInt32
  gamma : UInt16
  alpha : UInt16
  beta : UInt16
  delta : UInt16
  deriving DecidableEq

/-- `congestion_control_t`. `cc_alg` is always `CC_ALG_VEGAS`, and nothing reads `bdp_alg`. -/
structure CongestionControl where
  /-- When the cells were sent whose SENDME is awaited, the oldest first. -/
  sendmePendingTimestamps : List UInt64
  ewmaRttUsec : UInt64
  minRttUsec : UInt64
  maxRttUsec : UInt64
  bdp : UInt64
  cwnd : UInt64
  inflight : UInt64
  nextCcEvent : UInt16
  nextCwndEvent : UInt16
  inSlowStart : Bool
  cwndFull : Bool
  blockedChan : Bool
  cwndIncPctSs : UInt16
  cwndInc : UInt16
  cwndMin : UInt16
  cwndIncRate : UInt8
  sendmeInc : UInt8
  vegasParams : VegasParams
  deriving DecidableEq

/-- The consensus parameters that the two files keep in variables of their own. -/
structure CcGlobals where
  cwndMax : UInt32
  nEwmaCwndPct : UInt8
  nEwmaMax : UInt8
  nEwmaSs : UInt8
  rttResetPct : UInt8
  ccVegasCwndFullGap : UInt64
  ccVegasCwndFullMinpct : UInt64
  ccCwndFullPerCwnd : Bool
  deriving DecidableEq

/-- What is measured when a SENDME is processed. -/
structure CcReading where
  nowUsec : UInt64
  /-- The cells in the circuit's queue on its channel. -/
  chanQ : Int32
  blockedOnChan : Bool
  isMonotimeClockBroken : Bool
  deriving DecidableEq

/-! ## The parameters of the consensus -/

/-- `networkstatus_get_param`; `consensus` is what the latest consensus lists. -/
def networkstatusGetParam (consensus : String → Option ℤ) (name : String)
    (defaultVal minVal maxVal : ℤ) : ℤ :=
  let res := (consensus name).getD defaultVal
  if res < minVal then minVal else if res > maxVal then maxVal else res

/-- What a parameter is clamped to. -/
theorem networkstatusGetParam_mem {consensus : String → Option ℤ} {name : String}
    {defaultVal minVal maxVal : ℤ} (h : minVal ≤ maxVal) :
    minVal ≤ networkstatusGetParam consensus name defaultVal minVal maxVal
      ∧ networkstatusGetParam consensus name defaultVal minVal maxVal ≤ maxVal := by
  unfold networkstatusGetParam
  dsimp only
  split_ifs with hlow hhigh
  · exact ⟨le_refl _, h⟩
  · exact ⟨h, le_refl _⟩
  · exact ⟨not_lt.mp hlow, not_lt.mp hhigh⟩

/-- `TLS_RECORD_MAX_CELLS` -/
def tlsRecordMaxCells : ℤ := 16 * 1024 / 514

/-- `OUTBUF_CELLS` -/
def outbufCells : ℤ := 2 * tlsRecordMaxCells

/-- `SENDME_INC_DFLT` -/
def sendmeIncDflt : ℤ := tlsRecordMaxCells

/-- `CIRCWINDOW_INIT` -/
def circwindowInit : ℤ := 4 * sendmeIncDflt

/-- `cc_path_t` -/
inductive CcPath where
  | exit
  | onion
  | onionSos
  | onionVg
  | sbws
  deriving DecidableEq

/-- The names and defaults that `congestion_control_vegas_set_params` picks by the path. -/
structure VegasDefaults where
  alphaStr : String
  betaStr : String
  gammaStr : String
  deltaStr : String
  sscapStr : String
  alpha : ℤ
  beta : ℤ
  gamma : ℤ
  delta : ℤ
  ssCwndCap : ℤ

/-- The `switch` of `congestion_control_vegas_set_params`. -/
def CcPath.vegasDefaults : CcPath → VegasDefaults
  | .sbws =>
    { alphaStr := "cc_vegas_alpha_sbws", betaStr := "cc_vegas_beta_sbws",
      gammaStr := "cc_vegas_gamma_sbws", deltaStr := "cc_vegas_delta_sbws",
      sscapStr := "cc_sscap_sbws", alpha := 2 * outbufCells - tlsRecordMaxCells,
      beta := 2 * outbufCells + tlsRecordMaxCells, gamma := 2 * outbufCells,
      delta := 4 * outbufCells, ssCwndCap := 400 }
  | .exit | .onionSos =>
    { alphaStr := "cc_vegas_alpha_exit", betaStr := "cc_vegas_beta_exit",
      gammaStr := "cc_vegas_gamma_exit", deltaStr := "cc_vegas_delta_exit",
      sscapStr := "cc_sscap_exit", alpha := 3 * outbufCells, beta := 4 * outbufCells,
      gamma := 3 * outbufCells, delta := 5 * outbufCells, ssCwndCap := 600 }
  | .onion | .onionVg =>
    { alphaStr := "cc_vegas_alpha_onion", betaStr := "cc_vegas_beta_onion",
      gammaStr := "cc_vegas_gamma_onion", deltaStr := "cc_vegas_delta_onion",
      sscapStr := "cc_sscap_onion", alpha := 3 * outbufCells, beta := 6 * outbufCells,
      gamma := 4 * outbufCells, delta := 7 * outbufCells, ssCwndCap := 475 }

/-- `INT32_MAX` -/
def CongestionControl.int32Max : ℤ := 2 ^ 31 - 1

/-- The circuit's part of `congestion_control_vegas_set_params`; `delta` is cut to 16 bits. -/
def congestionControlVegasSetParams (consensus : String → Option ℤ) (path : CcPath) :
    VegasParams :=
  let d := path.vegasDefaults
  let int32Max := CongestionControl.int32Max
  { ssCwndCap := .ofInt (networkstatusGetParam consensus d.sscapStr d.ssCwndCap 100 int32Max)
    ssCwndMax := .ofInt (networkstatusGetParam consensus "cc_ss_max" 5000 500 int32Max)
    alpha := .ofInt (networkstatusGetParam consensus d.alphaStr d.alpha 0 1000)
    beta := .ofInt (networkstatusGetParam consensus d.betaStr d.beta 0 1000)
    gamma := .ofInt (networkstatusGetParam consensus d.gammaStr d.gamma 0 1000)
    delta := .ofInt (networkstatusGetParam consensus d.deltaStr d.delta 0 int32Max) }

/-- `congestion_control_new_consensus_params` and the rest of
`congestion_control_vegas_set_params`. -/
def CcGlobals.ofConsensus (consensus : String → Option ℤ) : CcGlobals where
  cwndMax := .ofInt (networkstatusGetParam consensus "cc_cwnd_max" CongestionControl.int32Max 500
    CongestionControl.int32Max)
  nEwmaCwndPct := .ofInt (networkstatusGetParam consensus "cc_ewma_cwnd_pct" 50 1 255)
  nEwmaMax := .ofInt (networkstatusGetParam consensus "cc_ewma_max" 10 2 CongestionControl.int32Max)
  nEwmaSs := .ofInt (networkstatusGetParam consensus "cc_ewma_ss" 2 2 CongestionControl.int32Max)
  rttResetPct := .ofInt (networkstatusGetParam consensus "cc_rtt_reset_pct" 100 0 100)
  ccVegasCwndFullGap := .ofInt (networkstatusGetParam consensus "cc_cwnd_full_gap" 4 0 32767)
  ccVegasCwndFullMinpct := .ofInt (networkstatusGetParam consensus "cc_cwnd_full_minpct" 25 0 100)
  ccCwndFullPerCwnd := networkstatusGetParam consensus "cc_cwnd_full_per_cwnd" 1 0 1 ≠ 0

namespace CongestionControl

/-- `CWND_UPDATE_RATE` -/
def cwndUpdateRate (cc : CongestionControl) : UInt64 :=
  if cc.inSlowStart then 1
  else
    (cc.cwnd + cc.cwndIncRate.toUInt64 * cc.sendmeInc.toUInt64 / 2)
      / (cc.cwndIncRate.toUInt64 * cc.sendmeInc.toUInt64)

/-- `SENDME_PER_CWND` -/
def sendmePerCwnd (cc : CongestionControl) : UInt64 :=
  (cc.cwnd + cc.sendmeInc.toUInt64 / 2) / cc.sendmeInc.toUInt64

/-- `congestion_control_new`, with `congestion_control_init` and
`congestion_control_init_params`. -/
def new (consensus : String → Option ℤ) (sendmeIncCells : UInt8) (path : CcPath) :
    CongestionControl where
  sendmePendingTimestamps := []
  ewmaRttUsec := 0
  minRttUsec := 0
  maxRttUsec := 0
  bdp := 0
  cwnd := .ofInt (networkstatusGetParam consensus "cc_cwnd_init" circwindowInit sendmeIncDflt 10000)
  inflight := 0
  -- `CWND_UPDATE_RATE` in slow start
  nextCcEvent := 1
  nextCwndEvent := 0
  inSlowStart := true
  cwndFull := false
  blockedChan := false
  cwndIncPctSs := .ofInt (networkstatusGetParam consensus "cc_cwnd_inc_pct_ss" 100 1 500)
  cwndInc := .ofInt (networkstatusGetParam consensus "cc_cwnd_inc" 1 1 1000)
  cwndMin := .ofInt
    (networkstatusGetParam consensus "cc_cwnd_min" circwindowInit sendmeIncDflt 1000)
  cwndIncRate := .ofInt (networkstatusGetParam consensus "cc_cwnd_inc_rate" sendmeIncDflt 1 250)
  sendmeInc := sendmeIncCells
  vegasParams := congestionControlVegasSetParams consensus path

/-! ## The round trip time -/

/-- `time_delta_should_use_heuristics` -/
def timeDeltaShouldUseHeuristics (cc : CongestionControl) : Bool :=
  !cc.inSlowStart && cc.ewmaRttUsec != 0

/-- `time_delta_stalled_or_jumped`, with the value it leaves in `is_monotime_clock_broken`. -/
def timeDeltaStalledOrJumped (cc : CongestionControl) (broken : Bool) (oldDelta newDelta : UInt64) :
    Bool × Bool :=
  if newDelta = 0 then (true, true)
  else if !cc.timeDeltaShouldUseHeuristics then (false, broken)
  else if oldDelta > newDelta * 5000 then (broken, broken)
  else if newDelta > oldDelta * 5000 then (true, broken)
  else (false, false)

/-- `n_ewma_count` -/
def nEwmaCount (g : CcGlobals) (cc : CongestionControl) : UInt64 :=
  let ewmaCnt :=
    if cc.inSlowStart then g.nEwmaSs.toUInt64
    else min (cc.cwndUpdateRate * g.nEwmaCwndPct.toUInt64 / 100) g.nEwmaMax.toUInt64
  max ewmaCnt 2

end CongestionControl

/-- `n_count_ewma` -/
def nCountEwma (curr prev n : UInt64) : UInt64 :=
  if prev = 0 then curr else (2 * curr + (n - 1) * prev) / (n + 1)

/-- `percent_max_mix` -/
def percentMaxMix (a b : UInt64) (pctMax : UInt8) : UInt64 :=
  if pctMax > 100 then max a b
  else pctMax.toUInt64 * max a b / 100 + (100 - pctMax.toUInt64) * min a b / 100

/-- `dequeue_timestamp`; `none` where `smartlist_get` reads past the end. -/
def dequeueTimestamp : List UInt64 → Option (UInt64 × List UInt64)
  | [] => none
  | timestamp :: rest => some (timestamp, rest)

namespace CongestionControl

/-- The `min_rtt_usec` that `congestion_control_update_circuit_rtt` leaves; the new average is in
`cc`. -/
def updatedMinRtt (g : CcGlobals) (cc : CongestionControl) : UInt64 :=
  if cc.minRttUsec = 0 then cc.ewmaRttUsec
  else if cc.cwnd = cc.cwndMin.toUInt64 ∧ !cc.inSlowStart then
    percentMaxMix cc.ewmaRttUsec cc.minRttUsec g.rttResetPct
  else if cc.ewmaRttUsec < cc.minRttUsec then cc.ewmaRttUsec
  else cc.minRttUsec

/-- `congestion_control_update_circuit_rtt`: the object and the round trip time, `0` if it could not
be measured. -/
def updateCircuitRtt (g : CcGlobals) (reading : CcReading) (cc : CongestionControl) :
    Option (CongestionControl × UInt64) := do
  let (sentAt, rest) ← dequeueTimestamp cc.sendmePendingTimestamps
  let cc := { cc with sendmePendingTimestamps := rest }
  let rtt := reading.nowUsec - sentAt
  if (cc.timeDeltaStalledOrJumped reading.isMonotimeClockBroken cc.ewmaRttUsec rtt).1 then
    return (cc, 0)
  else
    let cc := { cc with ewmaRttUsec := nCountEwma rtt cc.ewmaRttUsec (cc.nEwmaCount g) }
    let cc := if rtt > cc.maxRttUsec then { cc with maxRttUsec := rtt } else cc
    return ({ cc with minRttUsec := cc.updatedMinRtt g }, rtt)

/-! ## The bandwidth-delay product -/

/-- `congestion_control_update_circuit_bdp`: the object, and whether an estimate was made. -/
def updateCircuitBdp (reading : CcReading) (cc : CongestionControl) (currRttUsec : UInt64) :
    CongestionControl × Bool :=
  if cc.ewmaRttUsec = 0 then
    -- the clock has been stalled for the whole life of the circuit
    let cwnd :=
      if reading.blockedOnChan then
        if reading.chanQ.toInt64 ≥ cc.cwnd.toInt64 then cc.cwndMin.toUInt64
        else max (cc.cwnd - reading.chanQ.toInt64.toUInt64) cc.cwndMin.toUInt64
      else cc.cwnd
    ({ cc with blockedChan := reading.blockedOnChan, bdp := cwnd }, reading.blockedOnChan)
  else
    let cc := { cc with bdp := cc.cwnd * cc.minRttUsec / cc.ewmaRttUsec }
    let cc :=
      if cc.blockedChan != reading.blockedOnChan then
        { cc with blockedChan := reading.blockedOnChan, nextCcEvent := 0 }
      else cc
    (cc, reading.blockedOnChan || currRttUsec != 0)

/-- `congestion_control_update_circuit_estimates` -/
def updateCircuitEstimates (g : CcGlobals) (reading : CcReading) (cc : CongestionControl) :
    Option (CongestionControl × Bool) := do
  let (cc, currRttUsec) ← cc.updateCircuitRtt g reading
  return cc.updateCircuitBdp reading currRttUsec

/-! ## Vegas -/

/-- `rfc3742_ss_inc` -/
def rfc3742SsInc (cc : CongestionControl) : UInt64 :=
  if cc.cwnd ≤ cc.vegasParams.ssCwndCap.toUInt64 then
    (cc.cwndIncPctSs.toUInt64 * cc.sendmeInc.toUInt64 + 50) / 100
  else
    max ((cc.sendmeInc.toUInt64 * cc.vegasParams.ssCwndCap.toUInt64 + cc.cwnd) / (2 * cc.cwnd)) 1

/-- `cwnd_became_full` -/
def cwndBecameFull (g : CcGlobals) (cc : CongestionControl) : Bool :=
  cc.inflight + g.ccVegasCwndFullGap * cc.sendmeInc.toUInt64 ≥ cc.cwnd

/-- `cwnd_became_nonfull` -/
def cwndBecameNonfull (g : CcGlobals) (cc : CongestionControl) : Bool :=
  100 * cc.inflight < g.ccVegasCwndFullMinpct * cc.cwnd

/-- `cwnd_full_reset` -/
def cwndFullReset (g : CcGlobals) (cc : CongestionControl) : Bool :=
  if g.ccCwndFullPerCwnd then cc.nextCwndEvent.toUInt64 = cc.sendmePerCwnd
  else cc.nextCcEvent.toUInt64 = cc.cwndUpdateRate

/-- How far the window is above the bandwidth-delay product. -/
def queueUse (cc : CongestionControl) : UInt64 := if cc.bdp > cc.cwnd then 0 else cc.cwnd - cc.bdp

/-- `congestion_control_vegas_process_sendme` in slow start. -/
def vegasSlowStart (cc : CongestionControl) : CongestionControl :=
  let queueUse := cc.queueUse
  let cc :=
    if queueUse < cc.vegasParams.gamma.toUInt64 ∧ !cc.blockedChan then
      if cc.cwndFull then
        let inc := cc.rfc3742SsInc
        let cc := { cc with cwnd := cc.cwnd + inc }
        if inc * cc.sendmePerCwnd ≤ cc.cwndInc.toUInt64 * cc.cwndIncRate.toUInt64 then
          { cc with inSlowStart := false }
        else cc
      else cc
    else { cc with cwnd := cc.bdp + cc.vegasParams.gamma.toUInt64, inSlowStart := false }
  if cc.cwnd ≥ cc.vegasParams.ssCwndMax.toUInt64 then
    { cc with cwnd := cc.vegasParams.ssCwndMax.toUInt64, inSlowStart := false }
  else cc

/-- `congestion_control_vegas_process_sendme` in the steady state, when `next_cc_event` is `0`. -/
def vegasSteadyState (cc : CongestionControl) : CongestionControl :=
  let queueUse := cc.queueUse
  let cwnd :=
    if queueUse > cc.vegasParams.delta.toUInt64 then
      cc.bdp + cc.vegasParams.delta.toUInt64 - cc.cwndInc.toUInt64
    else if queueUse > cc.vegasParams.beta.toUInt64 ∨ cc.blockedChan then
      cc.cwnd - cc.cwndInc.toUInt64
    else if cc.cwndFull ∧ queueUse < cc.vegasParams.alpha.toUInt64 then
      cc.cwnd + cc.cwndInc.toUInt64
    else cc.cwnd
  { cc with cwnd := max cwnd cc.cwndMin.toUInt64 }

/-- The two counters are decremented, down to `0`. -/
def countSendme (cc : CongestionControl) : CongestionControl :=
  { cc with
    nextCcEvent := if cc.nextCcEvent = 0 then 0 else cc.nextCcEvent - 1
    nextCwndEvent := if cc.nextCwndEvent = 0 then 0 else cc.nextCwndEvent - 1 }

/-- Whether the window is used. -/
def updateFull (g : CcGlobals) (cc : CongestionControl) : CongestionControl :=
  if cc.cwndBecameFull g then { cc with cwndFull := true }
  else if cc.cwndBecameNonfull g then { cc with cwndFull := false }
  else cc

/-- The end of `congestion_control_vegas_process_sendme`: the counters start again. -/
def resetCounters (g : CcGlobals) (cc : CongestionControl) : CongestionControl :=
  let cc :=
    if cc.nextCwndEvent = 0 then { cc with nextCwndEvent := cc.sendmePerCwnd.toUInt16 } else cc
  let cc :=
    if cc.nextCcEvent = 0 then { cc with nextCcEvent := cc.cwndUpdateRate.toUInt16 } else cc
  if cc.cwndFullReset g then { cc with cwndFull := false } else cc

/-- The congestion window is updated when the estimates were. -/
def vegasUpdate (g : CcGlobals) (cc : CongestionControl) : CongestionControl :=
  let cc := cc.updateFull g
  let cc :=
    if cc.inSlowStart then cc.vegasSlowStart
    else if cc.nextCcEvent = 0 then cc.vegasSteadyState
    else cc
  cc.resetCounters g

/-- `congestion_control_vegas_process_sendme` -/
def vegasProcessSendme (g : CcGlobals) (reading : CcReading) (cc : CongestionControl) :
    Option CongestionControl := do
  let (cc, updated) ← cc.countSendme.updateCircuitEstimates g reading
  let cc := if updated then cc.vegasUpdate g else cc
  return { cc with inflight := cc.inflight - cc.sendmeInc.toUInt64 }

/-- `congestion_control_dispatch_cc_alg` -/
def dispatchCcAlg (g : CcGlobals) (reading : CcReading) (cc : CongestionControl) :
    Option CongestionControl := do
  let cc ← cc.vegasProcessSendme g reading
  return if cc.cwnd > g.cwndMax.toUInt64 then { cc with cwnd := g.cwndMax.toUInt64 } else cc

/-! ## Sending a cell -/

/-- `circuit_sent_cell_for_sendme` on a circuit with congestion control. -/
def sentCellForSendme (cc : CongestionControl) : Bool :=
  if cc.inflight = 0 then false else (cc.inflight + 1) % cc.sendmeInc.toUInt64 = 0

/-- `congestion_control_note_cell_sent` -/
def noteCellSent (cc : CongestionControl) (nowUsec : UInt64) : CongestionControl :=
  if cc.sentCellForSendme then
    { cc with
      inflight := cc.inflight + 1
      sendmePendingTimestamps := cc.sendmePendingTimestamps ++ [nowUsec] }
  else { cc with inflight := cc.inflight + 1 }

/-- The congestion-control case of `congestion_control_get_package_window`. -/
def getPackageWindow (cc : CongestionControl) : ℤ :=
  if cc.inflight > cc.cwnd then 0
  else if cc.cwnd - cc.inflight > 2147483647 then int32Max
  else (cc.cwnd - cc.inflight).toNat

/-! ## What a SENDME leaves alone -/

/-- The window, its estimates and its counters may differ. -/
structure Frame (cc cc' : CongestionControl) : Prop where
  inflight : cc'.inflight = cc.inflight
  sendmeInc : cc'.sendmeInc = cc.sendmeInc
  sendmePendingTimestamps : cc'.sendmePendingTimestamps = cc.sendmePendingTimestamps
  cwndMin : cc'.cwndMin = cc.cwndMin
  vegasParams : cc'.vegasParams = cc.vegasParams

namespace Frame

variable {cc cc' cc'' : CongestionControl}

theorem refl (cc : CongestionControl) : Frame cc cc := ⟨rfl, rfl, rfl, rfl, rfl⟩

theorem trans (h : Frame cc cc') (h' : Frame cc' cc'') : Frame cc cc'' :=
  ⟨h'.inflight.trans h.inflight, h'.sendmeInc.trans h.sendmeInc,
    h'.sendmePendingTimestamps.trans h.sendmePendingTimestamps, h'.cwndMin.trans h.cwndMin,
    h'.vegasParams.trans h.vegasParams⟩

end Frame

section Frames

variable {g : CcGlobals} {reading : CcReading} {cc : CongestionControl}

theorem frame_updateFull (g : CcGlobals) (cc : CongestionControl) :
    Frame cc (cc.updateFull g) := by
  unfold updateFull
  split_ifs
  · exact ⟨rfl, rfl, rfl, rfl, rfl⟩
  · exact ⟨rfl, rfl, rfl, rfl, rfl⟩
  · exact Frame.refl cc

theorem frame_vegasSlowStart : Frame cc cc.vegasSlowStart := by
  unfold vegasSlowStart
  dsimp only
  split_ifs
  all_goals exact ⟨rfl, rfl, rfl, rfl, rfl⟩

theorem frame_vegasSteadyState : Frame cc cc.vegasSteadyState := ⟨rfl, rfl, rfl, rfl, rfl⟩

theorem frame_resetCounters : Frame cc (cc.resetCounters g) := by
  unfold resetCounters
  dsimp only
  split_ifs
  all_goals exact ⟨rfl, rfl, rfl, rfl, rfl⟩

theorem frame_vegasUpdate : Frame cc (cc.vegasUpdate g) := by
  unfold vegasUpdate
  dsimp only
  refine Frame.trans ?_ frame_resetCounters
  refine Frame.trans (frame_updateFull g cc) ?_
  split_ifs
  · exact frame_vegasSlowStart
  · exact frame_vegasSteadyState
  · exact Frame.refl _

theorem frame_updateCircuitBdp (reading : CcReading) (cc : CongestionControl) (rtt : UInt64) :
    Frame cc (cc.updateCircuitBdp reading rtt).1 := by
  unfold updateCircuitBdp
  dsimp only
  split_ifs
  all_goals exact ⟨rfl, rfl, rfl, rfl, rfl⟩

/-- A SENDME uses up one time stamp; without one, a list is read past its end. -/
theorem updateCircuitRtt_cons (g : CcGlobals) (reading : CcReading) {cc : CongestionControl}
    {timestamp : UInt64} {rest : List UInt64}
    (h : cc.sendmePendingTimestamps = timestamp :: rest) :
    ∃ cc' rtt, cc.updateCircuitRtt g reading = some (cc', rtt)
      ∧ Frame { cc with sendmePendingTimestamps := rest } cc' := by
  unfold updateCircuitRtt
  rw [h]
  simp only [dequeueTimestamp, Option.bind_eq_bind, Option.bind_some]
  split_ifs
  all_goals exact ⟨_, _, rfl, rfl, rfl, rfl, rfl, rfl⟩

/-- What a SENDME does to the cells in flight. -/
theorem dispatchCcAlg_cons (g : CcGlobals) (reading : CcReading) {cc : CongestionControl}
    {timestamp : UInt64} {rest : List UInt64} (h : cc.sendmePendingTimestamps = timestamp :: rest) :
    ∃ cc', cc.dispatchCcAlg g reading = some cc'
      ∧ cc'.inflight = cc.inflight - cc.sendmeInc.toUInt64
      ∧ cc'.sendmeInc = cc.sendmeInc
      ∧ cc'.sendmePendingTimestamps = rest := by
  have hpending : cc.countSendme.sendmePendingTimestamps = timestamp :: rest := h
  obtain ⟨cc₁, rtt, hrtt, hframe₁⟩ := updateCircuitRtt_cons g reading hpending
  have hframe₂ := hframe₁.trans (frame_updateCircuitBdp reading cc₁ rtt)
  obtain ⟨cc₂, hcc₂⟩ : ∃ cc₂, cc₂ = if (cc₁.updateCircuitBdp reading rtt).2 then
      (cc₁.updateCircuitBdp reading rtt).1.vegasUpdate g
    else (cc₁.updateCircuitBdp reading rtt).1 := ⟨_, rfl⟩
  have hframe : Frame { cc.countSendme with sendmePendingTimestamps := rest } cc₂ := by
    rw [hcc₂]
    split_ifs
    · exact hframe₂.trans frame_vegasUpdate
    · exact hframe₂
  have hprocess : cc.vegasProcessSendme g reading
      = some { cc₂ with inflight := cc₂.inflight - cc₂.sendmeInc.toUInt64 } := by
    unfold vegasProcessSendme updateCircuitEstimates
    rw [hrtt, hcc₂]
    rfl
  unfold dispatchCcAlg
  rw [hprocess]
  have hinflight : cc₂.inflight - cc₂.sendmeInc.toUInt64
      = cc.inflight - cc.sendmeInc.toUInt64 := by
    rw [hframe.inflight, hframe.sendmeInc]
    rfl
  refine ⟨_, rfl, ?_⟩
  split_ifs
  · exact ⟨hinflight, hframe.sendmeInc, hframe.sendmePendingTimestamps⟩
  · exact ⟨hinflight, hframe.sendmeInc, hframe.sendmePendingTimestamps⟩

end Frames

end CongestionControl

end Dittor.Tor

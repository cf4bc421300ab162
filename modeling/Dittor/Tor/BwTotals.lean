import Mathlib
import Dittor.Tor.BwWeights

/-!
# The totals of the bandwidth weights (`dirvote.c`)

`update_total_bandwidth_weights` adds the bandwidth of one router to the total of its kind, and to
the total of all. A guard of which only a fraction counts as guard is added to two kinds; `T` grows
by the first part alone, so it is no longer the sum of the others unless the second parts add up to
nothing (`bandwidth_totals_iff`).

How the bandwidth is cut in two is a parameter; what the code relies on is that the parts add up to
the whole. The totals are exact here.
-/

namespace Dittor.Tor

open Dittor.Lib

/-! ## One router -/

/-- `guard_get_guardfraction_bandwidth`, which rounds a product of floating-point numbers. -/
structure GuardfractionSplit where
  guardBw : ℤ → ℕ → ℤ
  nonGuardBw : ℤ → ℕ → ℤ
  sum : ∀ bandwidth percentage,
    guardBw bandwidth percentage + nonGuardBw bandwidth percentage = bandwidth

/-- The fields of a `routerstatus_t` that are read, and its two flags. -/
structure BwRouter where
  hasBandwidth : Bool
  bandwidthKb : ℕ
  hasGuardfraction : Bool
  guardfractionPercentage : ℕ
  isExit : Bool
  isGuard : Bool
deriving DecidableEq, Repr

/-- The assertions on a fraction. -/
inductive GuardfractionFailure where
  | isGuard | percentage
deriving DecidableEq, Repr

/-- `default_bandwidth` and `guardfraction_bandwidth`; a bandwidth becomes an `int`. -/
def bandwidthParts (S : GuardfractionSplit) (rs : BwRouter) :
    Except GuardfractionFailure (ℤ × ℤ) :=
  if rs.hasGuardfraction then do
    torAssert rs.isGuard .isGuard
    torAssert (rs.guardfractionPercentage ≤ 100) .percentage
    return (S.guardBw (toInt32 rs.bandwidthKb) rs.guardfractionPercentage,
      S.nonGuardBw (toInt32 rs.bandwidthKb) rs.guardfractionPercentage)
  else return (toInt32 rs.bandwidthKb, 0)

/-- The totals with both parts. -/
def addParts (rs : BwRouter) (t : BwTotals) (defaultBandwidth guardfractionBandwidth : ℤ) :
    BwTotals :=
  let t := { t with T := t.T + defaultBandwidth }
  if rs.isExit && rs.isGuard then
    let t := { t with D := t.D + defaultBandwidth }
    if rs.hasGuardfraction then { t with E := t.E + guardfractionBandwidth } else t
  else if rs.isExit then { t with E := t.E + defaultBandwidth }
  else if rs.isGuard then
    let t := { t with G := t.G + defaultBandwidth }
    if rs.hasGuardfraction then { t with M := t.M + guardfractionBandwidth } else t
  else { t with M := t.M + defaultBandwidth }

/-- `update_total_bandwidth_weights` -/
def updateTotalBandwidthWeights (S : GuardfractionSplit) (t : BwTotals) (rs : BwRouter) :
    Except GuardfractionFailure BwTotals :=
  if rs.hasBandwidth = false then .ok t
  else (bandwidthParts S rs).map fun parts => addParts rs t parts.1 parts.2

/-- The totals before the first router. -/
def initialTotals : BwTotals := { G := 1, M := 1, E := 1, D := 1, T := 4 }

/-- The totals of all routers. -/
def bandwidthTotals (S : GuardfractionSplit) (routers : List BwRouter) :
    Except GuardfractionFailure BwTotals :=
  routers.foldlM (updateTotalBandwidthWeights S) initialTotals

/-! ## What each router adds -/

/-- The sum of the four kinds. -/
def BwTotals.kinds (t : BwTotals) : ℤ := t.G + t.M + t.E + t.D

/-- A router as the consensus has it: a bandwidth that fits an `int`, and a fraction only for a
guard. -/
structure BwRouter.Listed (rs : BwRouter) : Prop where
  bandwidth : rs.bandwidthKb < 2 ^ 31
  guard : rs.hasGuardfraction = true → rs.isGuard = true ∧ rs.guardfractionPercentage ≤ 100

/-- The bandwidth, nothing for a router without one. -/
def BwRouter.bandwidth (rs : BwRouter) : ℤ := if rs.hasBandwidth then rs.bandwidthKb else 0

/-- The part of a bandwidth that does not count as guard. -/
def BwRouter.cutOff (S : GuardfractionSplit) (rs : BwRouter) : ℤ :=
  if rs.hasGuardfraction then S.nonGuardBw rs.bandwidthKb rs.guardfractionPercentage else 0

/-- What a router adds to the kinds and not to `T`. -/
def BwRouter.nonGuard (S : GuardfractionSplit) (rs : BwRouter) : ℤ :=
  if rs.hasBandwidth then rs.cutOff S else 0

section Run

variable {S : GuardfractionSplit} {rs : BwRouter} {routers : List BwRouter} {t t' : BwTotals}

theorem BwRouter.Listed.toInt32 (h : rs.Listed) :
    Tor.toInt32 (rs.bandwidthKb : ℤ) = rs.bandwidthKb := by
  have hbandwidth := h.bandwidth
  unfold Tor.toInt32
  rw [Int.bmod_def]
  omega

theorem bandwidthParts_spec (h : rs.Listed) :
    bandwidthParts S rs = .ok (rs.bandwidthKb - rs.cutOff S, rs.cutOff S) := by
  unfold bandwidthParts BwRouter.cutOff
  rw [h.toInt32]
  cases hfraction : rs.hasGuardfraction with
  | false => rw [if_neg (by decide), if_neg (by decide), sub_zero]; rfl
  | true =>
    obtain ⟨hguard, hpercentage⟩ := h.guard hfraction
    have hfirst : S.guardBw rs.bandwidthKb rs.guardfractionPercentage
        = rs.bandwidthKb - S.nonGuardBw rs.bandwidthKb rs.guardfractionPercentage :=
      eq_sub_of_add_eq (S.sum _ _)
    rw [if_pos rfl, if_pos rfl, bind_eq_ok]
    refine ⟨(), torAssert_eq_ok.mpr hguard, bind_eq_ok.mpr ⟨(), torAssert_eq_ok.mpr hpercentage, ?_⟩⟩
    rw [hfirst]
    rfl

variable (t) in
/-- Both parts go to the kinds, the first one also to `T`. -/
theorem addParts_spec (first second : ℤ) (hguard : rs.hasGuardfraction = true → rs.isGuard = true)
    (hsecond : rs.hasGuardfraction = false → second = 0) :
    (addParts rs t first second).T = t.T + first
      ∧ (addParts rs t first second).kinds = t.kinds + first + second := by
  unfold addParts BwTotals.kinds
  cases hfraction : rs.hasGuardfraction with
  | true =>
    rw [hguard hfraction]
    cases rs.isExit with
    | true => exact ⟨rfl, by simp; ring⟩
    | false => exact ⟨rfl, by simp; ring⟩
  | false =>
    rw [hsecond hfraction]
    cases rs.isExit <;> cases rs.isGuard <;> exact ⟨rfl, by simp; ring⟩

variable (S t) in
/-- **One router**: the kinds grow by its bandwidth, `T` by what is not cut off. -/
theorem update_spec (h : rs.Listed) : ∃ t', updateTotalBandwidthWeights S t rs = .ok t'
    ∧ t'.kinds = t.kinds + rs.bandwidth ∧ t'.T = t.T + (rs.bandwidth - rs.nonGuard S) := by
  unfold updateTotalBandwidthWeights BwRouter.bandwidth BwRouter.nonGuard
  cases rs.hasBandwidth with
  | false => exact ⟨t, rfl, by simp, by simp⟩
  | true =>
    obtain ⟨hT, hkinds⟩ := addParts_spec t (rs.bandwidthKb - rs.cutOff S) (rs.cutOff S)
      (fun hfraction => (h.guard hfraction).1) (fun hnone => by
        rw [BwRouter.cutOff, hnone]
        rfl)
    refine ⟨_, by rw [bandwidthParts_spec h]; rfl, ?_, ?_⟩
    · rw [hkinds, if_pos rfl]
      ring
    · rw [hT, if_pos rfl, if_pos rfl]

/-- **All routers**, from any totals. -/
theorem totals_spec (h : ∀ rs ∈ routers, rs.Listed) (t : BwTotals) :
    ∃ t', routers.foldlM (updateTotalBandwidthWeights S) t = .ok t'
      ∧ t'.kinds = t.kinds + (routers.map BwRouter.bandwidth).sum
      ∧ t'.T = t.T + ((routers.map BwRouter.bandwidth).sum
        - (routers.map (BwRouter.nonGuard S)).sum) := by
  induction routers generalizing t with
  | nil => exact ⟨t, rfl, by simp, by simp⟩
  | cons rs routers ih =>
    obtain ⟨t1, hstep, hkinds, hT⟩ := update_spec S t (h rs List.mem_cons_self)
    obtain ⟨t2, hrun, hkinds', hT'⟩ := ih (fun r hr => h r (List.mem_cons_of_mem rs hr)) t1
    refine ⟨t2, ?_, ?_, ?_⟩
    · rw [List.foldlM_cons, hstep]
      exact hrun
    · rw [hkinds', hkinds, List.map_cons, List.sum_cons]
      ring
    · rw [hT', hT, List.map_cons, List.map_cons, List.sum_cons, List.sum_cons]
      ring

end Run

/-- **When `T` is the sum of the kinds**: what is cut off from the guards adds up to nothing. The
kinds always grow by the bandwidths. -/
theorem bandwidth_totals_iff (S : GuardfractionSplit) {routers : List BwRouter}
    (h : ∀ rs ∈ routers, rs.Listed) :
    ∃ t, bandwidthTotals S routers = .ok t
      ∧ (t.G - initialTotals.G) + (t.M - initialTotals.M) + (t.E - initialTotals.E)
          + (t.D - initialTotals.D) = (routers.map BwRouter.bandwidth).sum
      ∧ (t.T = t.G + t.M + t.E + t.D ↔ (routers.map (BwRouter.nonGuard S)).sum = 0) := by
  obtain ⟨t, hrun, hkinds, hT⟩ := totals_spec (S := S) h initialTotals
  have hstart : initialTotals.kinds = 4 := rfl
  have hall : initialTotals.T = 4 := rfl
  unfold BwTotals.kinds at hkinds hstart
  refine ⟨t, hrun, by linarith, ?_⟩
  · rw [hT, hkinds, hstart, hall]
    constructor
    · intro heq
      linarith
    · intro hzero
      rw [hzero]
      ring

/-- Half of the bandwidth is rounded up, as `tor_lround` does for what is positive. -/
def roundedSplit : GuardfractionSplit where
  guardBw bandwidth percentage := (bandwidth * percentage + 50) / 100
  nonGuardBw bandwidth percentage := bandwidth - (bandwidth * percentage + 50) / 100
  sum _ _ := by ring

/-- A guard of 100 kilobytes that counts with half of them. -/
def halfGuard : BwRouter where
  hasBandwidth := true
  bandwidthKb := 100
  hasGuardfraction := true
  guardfractionPercentage := 50
  isExit := false
  isGuard := true

/-- The same guard with all of them. -/
def fullGuard : BwRouter := { halfGuard with guardfractionPercentage := 100 }

theorem bandwidth_totals_full_guard : ∃ t, bandwidthTotals roundedSplit [fullGuard] = .ok t
    ∧ (t.G - initialTotals.G) + (t.M - initialTotals.M) + (t.E - initialTotals.E)
        + (t.D - initialTotals.D) = ([fullGuard].map BwRouter.bandwidth).sum
    ∧ (t.T = t.G + t.M + t.E + t.D ↔ ([fullGuard].map (BwRouter.nonGuard roundedSplit)).sum = 0) :=
  bandwidth_totals_iff roundedSplit fun rs hrs => by
    obtain rfl := List.mem_singleton.mp hrs
    exact ⟨by decide, fun _ => ⟨rfl, by decide⟩⟩

/-- With half a guard the kinds sum up to 104, and `T` is 54. -/
theorem half_guard_not_in_total :
    ¬ ∀ (S : GuardfractionSplit) (routers : List BwRouter), (∀ rs ∈ routers, rs.Listed) →
      ∀ t, bandwidthTotals S routers = .ok t → t.T = t.G + t.M + t.E + t.D := by
  intro hall
  have hlisted : ∀ rs ∈ [halfGuard], rs.Listed := fun rs hrs => by
    obtain rfl := List.mem_singleton.mp hrs
    exact ⟨by decide, fun _ => ⟨rfl, by decide⟩⟩
  have hrun : bandwidthTotals roundedSplit [halfGuard]
      = .ok { G := 51, M := 51, E := 1, D := 1, T := 54 } := rfl
  exact absurd (hall roundedSplit [halfGuard] hlisted _ hrun) (by decide)

end Dittor.Tor

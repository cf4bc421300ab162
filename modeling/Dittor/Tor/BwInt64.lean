import Mathlib
import Dittor.Lib.CheckedInt
import Dittor.Tor.BwTotals

/-!
# The width of the bandwidth weights (`dirvote.c`)

The totals and the weights of `BwTotals` and `BwWeights` are exact. The code computes them in
`int64_t`, and here it does: every operation is one of 64 bits, in the order of the code.

The totals fit for all networks of no more than 10000 routers, so they are the exact ones
(`bandwidthTotals64_eq`). The products of the check fit unless a sum of weighted totals is too
large (`networkstatusCheckWeights64_settles`).
-/

namespace Dittor.Tor

open Dittor.Lib

/-! ## The totals -/

section Definitions

variable {ε : Type}

/-- `guard_get_guardfraction_bandwidth` rounds a fraction of the bandwidth. -/
def GuardfractionSplit.Rounds (S : GuardfractionSplit) : Prop :=
  ∀ (bandwidth : ℤ) (percentage : ℕ), percentage ≤ 100 →
    min 0 bandwidth ≤ S.guardBw bandwidth percentage
      ∧ S.guardBw bandwidth percentage ≤ max 0 bandwidth

/-- `bandwidthParts`, where the rest of an `int` is an `int`. -/
def bandwidthParts32 (S : GuardfractionSplit) (rs : BwRouter) :
    Except (Fault GuardfractionFailure) (ℤ × ℤ) :=
  if rs.hasGuardfraction then do
    torAssert rs.isGuard (.assertion .isGuard)
    torAssert (rs.guardfractionPercentage ≤ 100) (.assertion .percentage)
    let guardBw := S.guardBw (toInt32 rs.bandwidthKb) rs.guardfractionPercentage
    return (guardBw, ← subInt 32 (toInt32 rs.bandwidthKb) guardBw)
  else return (toInt32 rs.bandwidthKb, 0)

/-- `addParts` -/
def addParts64 (rs : BwRouter) (t : BwTotals) (defaultBandwidth guardfractionBandwidth : ℤ) :
    Except (Fault ε) BwTotals := do
  let t := { t with T := ← addInt 64 t.T defaultBandwidth }
  if rs.isExit && rs.isGuard then
    let t := { t with D := ← addInt 64 t.D defaultBandwidth }
    if rs.hasGuardfraction then return { t with E := ← addInt 64 t.E guardfractionBandwidth }
    else return t
  else if rs.isExit then return { t with E := ← addInt 64 t.E defaultBandwidth }
  else if rs.isGuard then
    let t := { t with G := ← addInt 64 t.G defaultBandwidth }
    if rs.hasGuardfraction then return { t with M := ← addInt 64 t.M guardfractionBandwidth }
    else return t
  else return { t with M := ← addInt 64 t.M defaultBandwidth }

/-- `update_total_bandwidth_weights` -/
def updateTotalBandwidthWeights64 (S : GuardfractionSplit) (t : BwTotals) (rs : BwRouter) :
    Except (Fault GuardfractionFailure) BwTotals :=
  if rs.hasBandwidth = false then .ok t
  else do
    let parts ← bandwidthParts32 S rs
    addParts64 rs t parts.1 parts.2

/-- The totals of all routers. -/
def bandwidthTotals64 (S : GuardfractionSplit) (routers : List BwRouter) :
    Except (Fault GuardfractionFailure) BwTotals :=
  routers.foldlM (updateTotalBandwidthWeights64 S) initialTotals

/-! ## The check -/

/-- `CHECK_EQ` -/
def checkEq64 (a b margin : ℤ) : Except (Fault ε) Bool := do
  let difference ← subInt 64 a b
  if 0 ≤ difference then return difference ≤ margin
  else return (← subInt 64 b a) ≤ margin

/-- `networkstatus_check_weights` with `do_balance` -/
def networkstatusCheckWeights64 (w : BwWeights) (scale : ℤ) (t : BwTotals) (margin : ℤ) :
    Except (Fault ε) BwWeightsError := do
  let sumd ← checkEq64 (← addInt 64 (← addInt 64 w.Wed w.Wmd) w.Wgd) scale margin
  if !sumd then return .sumdError else
  let sumg ← checkEq64 (← addInt 64 w.Wmg w.Wgg) scale margin
  if !sumg then return .sumgError else
  let sume ← checkEq64 (← addInt 64 w.Wme w.Wee) scale margin
  if !sume then return .sumeError else
  if !rangeCheck w scale then return .rangeError else
  let guards ← dotInt 64 [(w.Wgg, t.G), (w.Wgd, t.D)]
  let exits ← dotInt 64 [(w.Wee, t.E), (w.Wed, t.D)]
  let slack ← mulQuoInt 64 margin t.T 3
  let balanceEg ← checkEq64 guards exits slack
  if !balanceEg then return .balanceEgError else
  let middle ← dotInt 64 [(t.M, scale), (w.Wmd, t.D), (w.Wme, t.E), (w.Wmg, t.G)]
  let balanceMid ← checkEq64 guards middle slack
  if !balanceMid then return .balanceMidError else
  return .noError

/-! ## The cases -/

variable (scale : ℤ) (t : BwTotals)

/-- `weightsCase1` -/
def weightsCase1Int64 : Except (Fault ε) BwWeights := do
  let third ← quoInt 64 scale 3
  let Wee ← mulQuoInt 64 scale (← addInt 64 (← addInt 64 t.E t.G) t.M) (← mulInt 64 3 t.E)
  let Wme ← subInt 64 scale Wee
  let Wmg ← mulQuoInt 64 scale (← subInt 64 (← subInt 64 (← mulInt 64 2 t.G) t.E) t.M)
    (← mulInt 64 3 t.G)
  let Wgg ← subInt 64 scale Wmg
  return { Wgg, Wgd := third, Wmg, Wme, Wmd := third, Wed := third, Wee }

/-- `weightsCase2b1` -/
def weightsCase2b1Int64 : Except (Fault ε) BwWeights := do
  let Wee ← mulQuoInt 64 scale (← addInt 64 (← subInt 64 t.E t.G) t.M) t.E
  let Wed ← mulQuoInt 64 scale
    (← subInt 64 (← addInt 64 (← subInt 64 t.D (← mulInt 64 2 t.E)) (← mulInt 64 4 t.G))
      (← mulInt 64 2 t.M))
    (← mulInt 64 3 t.D)
  let Wme ← mulQuoInt 64 scale (← subInt 64 t.G t.M) t.E
  let half ← quoInt 64 (← subInt 64 scale Wed) 2
  return { Wgg := scale, Wgd := half, Wmg := 0, Wme, Wmd := half, Wed, Wee }

/-- `weightsCase2b2` -/
def weightsCase2b2Int64 : Except (Fault ε) BwWeights := do
  let Wed ← mulQuoInt 64 scale
    (← addInt 64 (← addInt 64 (← subInt 64 t.D (← mulInt 64 2 t.E)) t.G) t.M) (← mulInt 64 3 t.D)
  let Wmd ← mulQuoInt 64 scale
    (← addInt 64 (← addInt 64 (← subInt 64 t.D (← mulInt 64 2 t.M)) t.G) t.E) (← mulInt 64 3 t.D)
  -- case 2b3
  let Wmd := if Wmd < 0 then 0 else Wmd
  let Wgd ← subInt 64 (← subInt 64 scale Wed) Wmd
  return { Wgg := scale, Wgd, Wmg := 0, Wme := 0, Wmd, Wed, Wee := scale }

/-- `weightsCase3a` -/
def weightsCase3aInt64 : Except (Fault ε) BwWeights :=
  if t.G < t.E then do
    let Wme ← (if t.E < t.M then pure 0
      else do mulQuoInt 64 scale (← subInt 64 t.E t.M) (← mulInt 64 2 t.E))
    let Wee ← subInt 64 scale Wme
    return { Wgg := scale, Wgd := scale, Wmg := 0, Wme, Wmd := 0, Wed := 0, Wee }
  else do
    let Wmg ← (if t.G < t.M then pure 0
      else do mulQuoInt 64 scale (← subInt 64 t.G t.M) (← mulInt 64 2 t.G))
    let Wgg ← subInt 64 scale Wmg
    return { Wgg, Wgd := 0, Wmg, Wme := 0, Wmd := 0, Wed := scale, Wee := scale }

/-- `weightsCase3b` -/
def weightsCase3bInt64 : Except (Fault ε) BwWeights :=
  if t.G < t.E then do
    let Wgd ← mulQuoInt 64 scale
      (← addInt 64 (← addInt 64 (← subInt 64 t.D (← mulInt 64 2 t.G)) t.E) t.M) (← mulInt 64 3 t.D)
    let Wee ← mulQuoInt 64 scale (← addInt 64 t.E t.M) (← mulInt 64 2 t.E)
    let Wme ← subInt 64 scale Wee
    let half ← quoInt 64 (← subInt 64 scale Wgd) 2
    return { Wgg := scale, Wgd, Wmg := 0, Wme, Wmd := half, Wed := half, Wee }
  else do
    let Wed ← mulQuoInt 64 scale
      (← addInt 64 (← addInt 64 (← subInt 64 t.D (← mulInt 64 2 t.E)) t.G) t.M) (← mulInt 64 3 t.D)
    let Wgg ← mulQuoInt 64 scale (← addInt 64 t.G t.M) (← mulInt 64 2 t.G)
    let Wmg ← subInt 64 scale Wgg
    let half ← quoInt 64 (← subInt 64 scale Wed) 2
    return { Wgg, Wgd := half, Wmg, Wme := 0, Wmd := half, Wed, Wee := scale }

/-- `ifBalanced` -/
def ifBalanced64 (w : BwWeights) : Except (Fault ε) (Option BwWeights) := do
  let berr ← networkstatusCheckWeights64 w scale t 10
  return if berr = .noError then some w else none

/-- `weightsCase2b` -/
def weightsCase2bInt64 : Except (Fault ε) (Option BwWeights) := do
  let first ← weightsCase2b1Int64 scale t
  let berr ← networkstatusCheckWeights64 first scale t 10
  if berr = .noError then return some first
  else
    let second ← weightsCase2b2Int64 scale t
    let berr ← networkstatusCheckWeights64 second scale t 10
    return if berr ≠ .noError ∧ berr ≠ .balanceMidError then none else some second

/-- The case analysis of `networkstatus_compute_bw_weights_v10`, `none` where it returns 0. -/
def bwWeightsV10Int64 : Except (Fault ε) (Option BwWeights) :=
  if t.G ≤ 0 ∨ t.M ≤ 0 ∨ t.E ≤ 0 ∨ t.D ≤ 0 then return none
  else do
    let E3 ← mulInt 64 3 t.E
    let G3 ← mulInt 64 3 t.G
    if t.T ≤ E3 ∧ t.T ≤ G3 then ifBalanced64 scale t (← weightsCase1Int64 scale t)
    else if E3 < t.T ∧ G3 < t.T then
      if (← addInt 64 (min t.E t.G) t.D) < max t.E t.G then return some (weightsCase2a scale t)
      else weightsCase2bInt64 scale t
    else if (← mulInt 64 3 (← addInt 64 (min t.E t.G) t.D)) < t.T then
      return some (← weightsCase3aInt64 scale t)
    else ifBalanced64 scale t (← weightsCase3bInt64 scale t)

/-- `networkstatus_compute_bw_weights_v10` -/
def networkstatusComputeBwWeights64 : Except (Fault WeightScaleFailure) (Option Bytes) := do
  match ← bwWeightsV10Int64 scale t with
  | none => return none
  | some w =>
    torAssert (0 < scale ∧ scale ≤ 2147483647) (.assertion .weightScale)
    return some (bandwidthWeightsLine w scale)

end Definitions

/-! ## The totals fit -/

/-- The totals that `n` routers can reach. -/
structure BwTotals.After (n : ℕ) (t : BwTotals) : Prop where
  G : |t.G| ≤ 4 + 2147483648 * n
  M : |t.M| ≤ 4 + 2147483648 * n
  E : |t.E| ≤ 4 + 2147483648 * n
  D : |t.D| ≤ 4 + 2147483648 * n
  T : |t.T| ≤ 4 + 2147483648 * n
  kinds : t.kinds ≤ 4 + 2147483647 * n
  scarce : t.D + t.G + t.T - 2 * t.E - 2 * t.M ≤ 2 + 4294967296 * n

/-- The two parts of the bandwidth of one router. -/
structure BwParts (first second : ℤ) : Prop where
  default : -2147483648 ≤ first ∧ first ≤ 2147483647
  guardfraction : -2147483648 ≤ second ∧ second ≤ 2147483647
  whole : -2147483648 ≤ first + second ∧ first + second ≤ 2147483647
  cut : first - second ≤ 2147483648

section Totals

variable {S : GuardfractionSplit} {rs : BwRouter} {t : BwTotals} {n : ℕ}

theorem toInt32_range (z : ℤ) : -2147483648 ≤ toInt32 z ∧ toInt32 z ≤ 2147483647 := by
  unfold toInt32
  rw [Int.bmod_def]
  omega

/-- The bandwidth of a router that the assertions let pass. -/
theorem bandwidthParts_parts (hS : S.Rounds) {parts : ℤ × ℤ}
    (h : bandwidthParts S rs = .ok parts) : BwParts parts.1 parts.2 := by
  have hrange := toInt32_range rs.bandwidthKb
  unfold bandwidthParts at h
  generalize toInt32 rs.bandwidthKb = bandwidth at *
  split_ifs at h with hfraction
  · obtain ⟨_, _, h⟩ := bind_eq_ok.mp h
    obtain ⟨_, hpercentage, h⟩ := bind_eq_ok.mp h
    cases h
    have hrounds := hS bandwidth _ (torAssert_eq_ok.mp hpercentage)
    have hsum := S.sum bandwidth rs.guardfractionPercentage
    exact ⟨by dsimp only; omega, by dsimp only; omega, by dsimp only; omega, by dsimp only; omega⟩
  · cases h
    exact ⟨by dsimp only; omega, by dsimp only; omega, by dsimp only; omega, by dsimp only; omega⟩

/-- The rest of an `int` fits. -/
theorem bandwidthParts32_eq (hS : S.Rounds) :
    bandwidthParts32 S rs = (bandwidthParts S rs).mapError Fault.assertion := by
  have hrange := toInt32_range rs.bandwidthKb
  unfold bandwidthParts32 bandwidthParts
  generalize toInt32 rs.bandwidthKb = bandwidth at *
  by_cases hfraction : rs.hasGuardfraction = true
  · rw [if_pos hfraction, if_pos hfraction]
    unfold torAssert
    by_cases hguard : rs.isGuard = true
    · rw [if_pos hguard, if_pos hguard]
      by_cases hpercentage : rs.guardfractionPercentage ≤ 100
      · rw [if_pos hpercentage, if_pos hpercentage]
        have hrounds := hS bandwidth _ hpercentage
        have hsum := S.sum bandwidth rs.guardfractionPercentage
        have hrest : (subInt 32 bandwidth (S.guardBw bandwidth rs.guardfractionPercentage)
              : Except (Fault GuardfractionFailure) ℤ)
            = .ok (S.nonGuardBw bandwidth rs.guardfractionPercentage) := by
          rw [eq_sub_of_add_eq' hsum]
          exact if_pos (inInt32_iff.mpr (by omega))
        simp only [ok_bind, hrest]
        rfl
      · rw [if_neg hpercentage, if_neg hpercentage]
        rfl
    · rw [if_neg hguard, if_neg hguard]
      rfl
  · rw [if_neg hfraction, if_neg hfraction]
    rfl

theorem addParts64_eq {first second : ℤ} (h : t.After n) (hn : n < 10000)
    (hparts : BwParts first second) :
    (addParts64 rs t first second : Except (Fault GuardfractionFailure) BwTotals)
      = .ok (addParts rs t first second) := by
  obtain ⟨hG, hM, hE, hD, hT, -, -⟩ := h
  obtain ⟨hfirst, hsecond, -, -⟩ := hparts
  rw [abs_le] at hG hM hE hD hT
  unfold addParts64 addParts
  simp (disch := omega) only [addInt64_eq, ok_bind]
  split_ifs
  all_goals rfl

theorem addParts_after {first second : ℤ} (h : t.After n) (hparts : BwParts first second) :
    (addParts rs t first second).After (n + 1) := by
  obtain ⟨hG, hM, hE, hD, hT, hkinds, hscarce⟩ := h
  obtain ⟨hfirst, hsecond, hwhole, hcut⟩ := hparts
  unfold BwTotals.kinds at hkinds
  rw [abs_le] at hG hM hE hD hT
  unfold addParts
  dsimp only
  split_ifs
  all_goals
    refine ⟨?_, ?_, ?_, ?_, ?_, ?_, ?_⟩
    all_goals
      simp only [abs_le, BwTotals.kinds]
      omega

theorem BwTotals.After.succ (h : t.After n) : t.After (n + 1) := by
  obtain ⟨hG, hM, hE, hD, hT, hkinds, hscarce⟩ := h
  exact ⟨by push_cast; omega, by push_cast; omega, by push_cast; omega, by push_cast; omega,
    by push_cast; omega, by push_cast; omega, by push_cast; omega⟩

variable (rs) in
/-- **One router**: nothing overflows, and the totals grow by what one router can add. -/
theorem update64_spec (hS : S.Rounds) (h : t.After n) (hn : n < 10000) :
    updateTotalBandwidthWeights64 S t rs
        = (updateTotalBandwidthWeights S t rs).mapError Fault.assertion
      ∧ ∀ t', updateTotalBandwidthWeights S t rs = .ok t' → t'.After (n + 1) := by
  unfold updateTotalBandwidthWeights64 updateTotalBandwidthWeights
  split_ifs
  · refine ⟨rfl, fun t' ht' => ?_⟩
    cases ht'
    exact h.succ
  · rw [bandwidthParts32_eq hS]
    cases hparts : bandwidthParts S rs with
    | error e => exact ⟨rfl, fun _ ht' => nomatch ht'⟩
    | ok parts =>
      have hsmall := bandwidthParts_parts hS hparts
      refine ⟨addParts64_eq h hn hsmall, fun t' ht' => ?_⟩
      cases ht'
      exact addParts_after h hsmall

/-- **All routers**, from any totals. -/
theorem totals64_spec (hS : S.Rounds) {routers : List BwRouter} (h : t.After n)
    (hn : n + routers.length ≤ 10000) :
    routers.foldlM (updateTotalBandwidthWeights64 S) t
        = (routers.foldlM (updateTotalBandwidthWeights S) t).mapError Fault.assertion
      ∧ ∀ t', routers.foldlM (updateTotalBandwidthWeights S) t = .ok t'
        → t'.After (n + routers.length) := by
  induction routers generalizing t n with
  | nil =>
    refine ⟨rfl, fun t' ht' => ?_⟩
    cases ht'
    exact h
  | cons rs routers ih =>
    rw [List.length_cons] at hn ⊢
    obtain ⟨hstep, hafter⟩ := update64_spec rs hS h (by omega)
    rw [List.foldlM_cons, List.foldlM_cons, hstep]
    cases hexact : updateTotalBandwidthWeights S t rs with
    | error e => exact ⟨rfl, fun _ ht' => nomatch ht'⟩
    | ok t1 =>
      have hrest := ih (hafter t1 hexact) (by omega)
      rw [show n + (routers.length + 1) = n + 1 + routers.length by omega]
      exact hrest

theorem initialTotals_after : initialTotals.After 0 :=
  ⟨by decide, by decide, by decide, by decide, by decide, by decide, by decide⟩

/-- **The totals never overflow**, for no more than 10000 routers. -/
theorem bandwidthTotals64_eq (hS : S.Rounds) {routers : List BwRouter}
    (hlength : routers.length ≤ 10000) :
    bandwidthTotals64 S routers = (bandwidthTotals S routers).mapError Fault.assertion
      ∧ ∀ t, bandwidthTotals S routers = .ok t → t.After 10000 := by
  obtain ⟨heq, hafter⟩ := totals64_spec hS initialTotals_after (routers.length.zero_add ▸ hlength)
  refine ⟨heq, fun t ht => ?_⟩
  obtain ⟨hG, hM, hE, hD, hT, hkinds, hscarce⟩ := hafter t ht
  rw [Nat.zero_add] at hG hM hE hD hT hkinds hscarce
  exact ⟨by push_cast; omega, by push_cast; omega, by push_cast; omega, by push_cast; omega,
    by push_cast; omega, by push_cast; omega, by push_cast; omega⟩

end Totals

/-! ## When the check fits -/

/-- The sums of the weights of one kind are far from the limits. -/
structure BwWeights.Addable (w : BwWeights) : Prop where
  middle : |w.Wed + w.Wmd| ≤ 9000000000000000000
  both : |w.Wed + w.Wmd + w.Wgd| ≤ 9000000000000000000
  guards : |w.Wmg + w.Wgg| ≤ 9000000000000000000
  exits : |w.Wme + w.Wee| ≤ 9000000000000000000

/-- The weighted totals that the check compares fit. It computes them for sane weights, and those
of the middle only if guards and exits are balanced. -/
def BwWeights.SumsFit (w : BwWeights) (scale : ℤ) (t : BwTotals) : Prop :=
  w.Sane scale →
    w.Wgg * t.G + w.Wgd * t.D ≤ 9223372036854775807
      ∧ w.Wee * t.E + w.Wed * t.D ≤ 9223372036854775807
      ∧ (w.BalancedEg t →
        t.M * scale + w.Wmd * t.D + w.Wme * t.E + w.Wmg * t.G ≤ 9223372036854775807)

section Check

variable {ε : Type} {w : BwWeights} {scale : ℤ} {t : BwTotals}

theorem checkEq64_eq {a b : ℤ} (margin : ℤ) (hlo : -9223372036854775807 ≤ a - b)
    (hhi : a - b ≤ 9223372036854775807) :
    (checkEq64 a b margin : Except (Fault ε) Bool) = .ok (checkEq a b margin) := by
  unfold checkEq64 checkEq
  simp (disch := omega) only [subInt64_eq, ok_bind]
  split_ifs <;> rfl

theorem settles_dot_two {a b c d : ℤ} (hab : 0 ≤ a * b) (hcd : 0 ≤ c * d) :
    Settles (dotInt 64 [(a, b), (c, d)] : Except (Fault ε) ℤ)
      (a * b + c * d ≤ 9223372036854775807) (a * b + c * d) := by
  have h : Settles (dotInt 64 [(a, b), (c, d)] : Except (Fault ε) ℤ) _ _ := settles_dotInt64 (by
    simp only [List.forall_mem_cons, List.not_mem_nil, false_implies, implies_true, and_true]
    exact ⟨hab, hcd⟩)
  have hdot : dot [(a, b), (c, d)] = a * b + c * d := by simp [dot]
  rwa [hdot] at h

theorem settles_dot_four {a b c d e f g h : ℤ} (hab : 0 ≤ a * b) (hcd : 0 ≤ c * d)
    (hef : 0 ≤ e * f) (hgh : 0 ≤ g * h) :
    Settles (dotInt 64 [(a, b), (c, d), (e, f), (g, h)] : Except (Fault ε) ℤ)
      (a * b + c * d + e * f + g * h ≤ 9223372036854775807)
      (a * b + c * d + e * f + g * h) := by
  have hsettles : Settles (dotInt 64 [(a, b), (c, d), (e, f), (g, h)] : Except (Fault ε) ℤ) _ _ :=
    settles_dotInt64 (by
      simp only [List.forall_mem_cons, List.not_mem_nil, false_implies, implies_true, and_true]
      exact ⟨hab, hcd, hef, hgh⟩)
  have hdot : dot [(a, b), (c, d), (e, f), (g, h)] = a * b + c * d + e * f + g * h := by
    simp only [dot, List.map_cons, List.map_nil, List.sum_cons, List.sum_nil]
    ring
  rwa [hdot] at hsettles

/-- A comparison that ends the check. -/
theorem settles_error {P : Prop} (e : BwWeightsError) (h : P) :
    Settles (.ok e : Except (Fault ε) BwWeightsError) P e :=
  (settles_ok e).iff (iff_of_true trivial h)

/-- The comparisons of sane weights. -/
theorem settles_balance (hscale : 1 ≤ scale ∧ scale ≤ 2147483647)
    (hpos : 0 < t.G ∧ 0 < t.M ∧ 0 < t.E ∧ 0 < t.D) (ht : t.After 10000) (hsane : w.Sane scale) :
    Settles (do
        let guards ← dotInt 64 [(w.Wgg, t.G), (w.Wgd, t.D)]
        let exits ← dotInt 64 [(w.Wee, t.E), (w.Wed, t.D)]
        let slack ← mulQuoInt 64 10 t.T 3
        let balanceEg ← checkEq64 guards exits slack
        if !balanceEg then return .balanceEgError else
        let middle ← dotInt 64 [(t.M, scale), (w.Wmd, t.D), (w.Wme, t.E), (w.Wmg, t.G)]
        let balanceMid ← checkEq64 guards middle slack
        if !balanceMid then return .balanceMidError else
        return .noError : Except (Fault ε) BwWeightsError)
      (w.Wgg * t.G + w.Wgd * t.D ≤ 9223372036854775807
        ∧ w.Wee * t.E + w.Wed * t.D ≤ 9223372036854775807
        ∧ (w.BalancedEg t →
          t.M * scale + w.Wmd * t.D + w.Wme * t.E + w.Wmg * t.G ≤ 9223372036854775807))
      (if !checkEq (w.Wgg * t.G + w.Wgd * t.D) (w.Wee * t.E + w.Wed * t.D) ((10 * t.T).tdiv 3) then
        .balanceEgError
      else if !checkEq (w.Wgg * t.G + w.Wgd * t.D)
          (t.M * scale + w.Wmd * t.D + w.Wme * t.E + w.Wmg * t.G) ((10 * t.T).tdiv 3) then
        .balanceMidError
      else .noError) := by
  obtain ⟨hG, hM, hE, hD⟩ := hpos
  have hT := ht.T
  rw [abs_le] at hT
  have hrange := hsane.range
  simp only [BwWeights.all, List.forall_mem_cons, List.not_mem_nil, false_implies, implies_true,
    and_true] at hrange
  obtain ⟨hWgg, hWgd, hWmg, hWme, hWmd, hWed, hWee⟩ := hrange
  have hgg := mul_nonneg hWgg.1 hG.le
  have hgd := mul_nonneg hWgd.1 hD.le
  have hee := mul_nonneg hWee.1 hE.le
  have hed := mul_nonneg hWed.1 hD.le
  have hms := mul_nonneg hM.le (show 0 ≤ scale by omega)
  have hmd := mul_nonneg hWmd.1 hD.le
  have hme := mul_nonneg hWme.1 hE.le
  have hmg := mul_nonneg hWmg.1 hG.le
  have hslack : (mulQuoInt 64 10 t.T 3 : Except (Fault ε) ℤ) = .ok ((10 * t.T).tdiv 3) :=
    (settles_mulQuoInt64 10 t.T (by decide)).1 (inInt64_iff.mpr (by omega))
  refine (settles_dot_two hgg hgd).bind fun hguards => (settles_dot_two hee hed).bind
    fun hexits => ?_
  simp (disch := omega) only [hslack, checkEq64_eq, ok_bind]
  cases hbalance : checkEq (w.Wgg * t.G + w.Wgd * t.D) (w.Wee * t.E + w.Wed * t.D)
      ((10 * t.T).tdiv 3) with
  | false =>
    refine settles_error _ fun hbalanced => ?_
    rw [checkEq_iff.mpr hbalanced] at hbalance
    cases hbalance
  | true =>
    refine ((settles_dot_four hms hmd hme hmg).bind (Q := True) fun hmiddle => ?_).iff
      ⟨fun h _ => h.1, fun h => ⟨h (checkEq_iff.mp hbalance), trivial⟩⟩
    simp (disch := omega) only [checkEq64_eq, ok_bind]
    cases checkEq (w.Wgg * t.G + w.Wgd * t.D)
        (t.M * scale + w.Wmd * t.D + w.Wme * t.E + w.Wmg * t.G) ((10 * t.T).tdiv 3) with
    | false => exact settles_ok _
    | true => exact settles_ok _

/-- **The check** gives its result exactly when the weighted totals fit. -/
theorem networkstatusCheckWeights64_settles (hscale : 1 ≤ scale ∧ scale ≤ 2147483647)
    (hpos : 0 < t.G ∧ 0 < t.M ∧ 0 < t.E ∧ 0 < t.D) (ht : t.After 10000) (hw : w.Addable) :
    Settles (networkstatusCheckWeights64 w scale t 10 : Except (Fault ε) BwWeightsError)
      (w.SumsFit scale t) (networkstatusCheckWeights w scale t 10) := by
  obtain ⟨hmiddle, hboth, hguards, hexits⟩ := hw
  rw [abs_le] at hmiddle hboth hguards hexits
  unfold networkstatusCheckWeights64 networkstatusCheckWeights
  simp (disch := omega) only [addInt64_eq, checkEq64_eq, ok_bind]
  cases hsumd : checkEq (w.Wed + w.Wmd + w.Wgd) scale 10 with
  | false =>
    refine settles_error _ fun hsane => ?_
    rw [checkEq_iff.mpr hsane.both] at hsumd
    cases hsumd
  | true =>
  cases hsumg : checkEq (w.Wmg + w.Wgg) scale 10 with
  | false =>
    refine settles_error _ fun hsane => ?_
    rw [checkEq_iff.mpr hsane.guards] at hsumg
    cases hsumg
  | true =>
  cases hsume : checkEq (w.Wme + w.Wee) scale 10 with
  | false =>
    refine settles_error _ fun hsane => ?_
    rw [checkEq_iff.mpr hsane.exits] at hsume
    cases hsume
  | true =>
  cases hrange : rangeCheck w scale with
  | false =>
    refine settles_error _ fun hsane => ?_
    rw [rangeCheck_iff.mpr hsane.range] at hrange
    cases hrange
  | true =>
  have hsane : w.Sane scale := ⟨rangeCheck_iff.mp hrange, checkEq_iff.mp hsumg,
    checkEq_iff.mp hsume, checkEq_iff.mp hsumd⟩
  exact (settles_balance hscale hpos ht hsane).iff ⟨fun h _ => h, fun h => h hsane⟩

end Check

end Dittor.Tor

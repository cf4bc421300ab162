import Mathlib
import Dittor.Lib.Checks
import Dittor.Lib.Signed
import Dittor.Lib.TruncDiv
import Dittor.Tor.Descriptor

/-!
# Bandwidth weights (`dirvote.c`)

`networkstatus_compute_bw_weights_v10` divides the bandwidth of guards, exits and relays that are
both between the positions of a circuit. The totals decide on one of ten sets of weights; five of
them go through `networkstatus_check_weights` before they are used. The arithmetic is exact here;
a quotient is rounded towards zero.
-/

namespace Dittor.Tor

open Dittor.Lib

/-! ## The check -/

/-- The totals of guards, middle relays, exits, relays that are both, and all. -/
structure BwTotals where
  G : ℤ
  M : ℤ
  E : ℤ
  D : ℤ
  T : ℤ
deriving DecidableEq, Repr

/-- The seven weights, as they are initialized. -/
structure BwWeights where
  Wgg : ℤ := -1
  Wgd : ℤ := -1
  Wmg : ℤ := -1
  Wme : ℤ := -1
  Wmd : ℤ := -1
  Wed : ℤ := -1
  Wee : ℤ := -1
deriving DecidableEq, Repr

/-- All of them. -/
def BwWeights.all (w : BwWeights) : List ℤ := [w.Wgg, w.Wgd, w.Wmg, w.Wme, w.Wmd, w.Wed, w.Wee]

/-- `bw_weights_error_t` -/
inductive BwWeightsError where
  | noError | rangeError | sumgError | sumeError | sumdError | balanceMidError | balanceEgError
deriving DecidableEq, Repr

/-- `CHECK_EQ` -/
def checkEq (a b margin : ℤ) : Bool := if 0 ≤ a - b then a - b ≤ margin else b - a ≤ margin

/-- `RANGE_CHECK` -/
def rangeCheck (w : BwWeights) (mx : ℤ) : Bool := w.all.all fun x => 0 ≤ x && x ≤ mx

/-- `networkstatus_check_weights` with `do_balance` -/
def networkstatusCheckWeights (w : BwWeights) (scale : ℤ) (t : BwTotals) (margin : ℤ) :
    BwWeightsError :=
  if !checkEq (w.Wed + w.Wmd + w.Wgd) scale margin then .sumdError
  else if !checkEq (w.Wmg + w.Wgg) scale margin then .sumgError
  else if !checkEq (w.Wme + w.Wee) scale margin then .sumeError
  else if !rangeCheck w scale then .rangeError
  else if !checkEq (w.Wgg * t.G + w.Wgd * t.D) (w.Wee * t.E + w.Wed * t.D)
      ((margin * t.T).tdiv 3) then .balanceEgError
  else if !checkEq (w.Wgg * t.G + w.Wgd * t.D)
      (t.M * scale + w.Wmd * t.D + w.Wme * t.E + w.Wmg * t.G) ((margin * t.T).tdiv 3) then
    .balanceMidError
  else .noError

/-! ## The cases -/

section Cases

variable (scale : ℤ) (t : BwTotals)

/-- Case 1: neither are scarce. -/
def weightsCase1 : BwWeights :=
  let w : BwWeights := { Wgd := scale.tdiv 3, Wed := scale.tdiv 3, Wmd := scale.tdiv 3 }
  let w := { w with Wee := (scale * (t.E + t.G + t.M)).tdiv (3 * t.E) }
  let w := { w with Wme := scale - w.Wee }
  let w := { w with Wmg := (scale * (2 * t.G - t.E - t.M)).tdiv (3 * t.G) }
  { w with Wgg := scale - w.Wmg }

/-- Case 2a: both are scarce, and one of them more than the other and the relays that are both. -/
def weightsCase2a : BwWeights :=
  let w : BwWeights := { Wgg := scale, Wee := scale, Wmg := 0, Wme := 0, Wmd := 0 }
  if t.E < t.G then { w with Wed := scale, Wgd := 0 } else { w with Wed := 0, Wgd := scale }

/-- Case 2b1 -/
def weightsCase2b1 : BwWeights :=
  let w : BwWeights := {
    Wee := (scale * (t.E - t.G + t.M)).tdiv t.E
    Wed := (scale * (t.D - 2 * t.E + 4 * t.G - 2 * t.M)).tdiv (3 * t.D)
    Wme := (scale * (t.G - t.M)).tdiv t.E
    Wmg := 0
    Wgg := scale }
  { w with Wmd := (scale - w.Wed).tdiv 2, Wgd := (scale - w.Wed).tdiv 2 }

/-- Cases 2b2 and 2b3 -/
def weightsCase2b2 : BwWeights :=
  let w : BwWeights := {
    Wgg := scale
    Wee := scale
    Wed := (scale * (t.D - 2 * t.E + t.G + t.M)).tdiv (3 * t.D)
    Wmd := (scale * (t.D - 2 * t.M + t.G + t.E)).tdiv (3 * t.D)
    Wme := 0
    Wmg := 0 }
  -- case 2b3
  let w := if w.Wmd < 0 then { w with Wmd := 0 } else w
  { w with Wgd := scale - w.Wed - w.Wmd }

/-- Case 3a, with guards scarce and with exits scarce -/
def weightsCase3a : BwWeights :=
  if t.G < t.E then
    let w : BwWeights := { Wgg := scale, Wgd := scale, Wmd := 0, Wed := 0, Wmg := 0 }
    let w := { w with
      Wme := if t.E < t.M then 0 else (scale * (t.E - t.M)).tdiv (2 * t.E) }
    { w with Wee := scale - w.Wme }
  else
    let w : BwWeights := { Wee := scale, Wed := scale, Wmd := 0, Wgd := 0, Wme := 0 }
    let w := { w with
      Wmg := if t.G < t.M then 0 else (scale * (t.G - t.M)).tdiv (2 * t.G) }
    { w with Wgg := scale - w.Wmg }

/-- Cases 3bg and 3be -/
def weightsCase3b : BwWeights :=
  if t.G < t.E then
    let w : BwWeights := {
      Wgg := scale
      Wgd := (scale * (t.D - 2 * t.G + t.E + t.M)).tdiv (3 * t.D)
      Wmg := 0
      Wee := (scale * (t.E + t.M)).tdiv (2 * t.E) }
    { w with
      Wme := scale - w.Wee, Wmd := (scale - w.Wgd).tdiv 2, Wed := (scale - w.Wgd).tdiv 2 }
  else
    let w : BwWeights := {
      Wee := scale
      Wed := (scale * (t.D - 2 * t.E + t.G + t.M)).tdiv (3 * t.D)
      Wme := 0
      Wgg := (scale * (t.G + t.M)).tdiv (2 * t.G) }
    { w with
      Wmg := scale - w.Wgg, Wmd := (scale - w.Wed).tdiv 2, Wgd := (scale - w.Wed).tdiv 2 }

/-- The weights of a case that the check has to accept. -/
def ifBalanced (w : BwWeights) : Option BwWeights :=
  if networkstatusCheckWeights w scale t 10 = .noError then some w else none

/-- Case 2b; the second weights may leave the middle unbalanced. -/
def weightsCase2b : Option BwWeights :=
  if networkstatusCheckWeights (weightsCase2b1 scale t) scale t 10 = .noError then
    some (weightsCase2b1 scale t)
  else
    let berr := networkstatusCheckWeights (weightsCase2b2 scale t) scale t 10
    if berr ≠ .noError ∧ berr ≠ .balanceMidError then none else some (weightsCase2b2 scale t)

/-- The case analysis of `networkstatus_compute_bw_weights_v10`, `none` where it returns 0. -/
def bwWeightsV10 : Option BwWeights :=
  if t.G ≤ 0 ∨ t.M ≤ 0 ∨ t.E ≤ 0 ∨ t.D ≤ 0 then none
  else if t.T ≤ 3 * t.E ∧ t.T ≤ 3 * t.G then ifBalanced scale t (weightsCase1 scale t)
  else if 3 * t.E < t.T ∧ 3 * t.G < t.T then
    if min t.E t.G + t.D < max t.E t.G then some (weightsCase2a scale t)
    else weightsCase2b scale t
  else if 3 * (min t.E t.G + t.D) < t.T then some (weightsCase3a scale t)
  else ifBalanced scale t (weightsCase3b scale t)

end Cases

/-! ## The line -/

/-- `(int)` -/
def toInt32 (z : ℤ) : ℤ := z.bmod 4294967296

/-- The line `bandwidth-weights`. -/
def bandwidthWeightsLine (w : BwWeights) (scale : ℤ) : Bytes :=
  let entry (name : String) (z : ℤ) : Bytes := cstring name ++ decimalInt (toInt32 z)
  cstring "bandwidth-weights " ++ (cstring " ").intercalate [
    entry "Wbd=" w.Wmd, entry "Wbe=" w.Wme, entry "Wbg=" w.Wmg, entry "Wbm=" scale,
    entry "Wdb=" scale,
    entry "Web=" scale, entry "Wed=" w.Wed, entry "Wee=" w.Wee, entry "Weg=" w.Wed,
    entry "Wem=" w.Wee,
    entry "Wgb=" scale, entry "Wgd=" w.Wgd, entry "Wgg=" w.Wgg, entry "Wgm=" w.Wgg,
    entry "Wmb=" scale, entry "Wmd=" w.Wmd, entry "Wme=" w.Wme, entry "Wmg=" w.Wmg,
    entry "Wmm=" scale] ++ cstring "\n"

/-- The assertion that the weights fit `int`s. -/
inductive WeightScaleFailure where
  | weightScale
deriving DecidableEq, Repr

/-- `networkstatus_compute_bw_weights_v10`: the line, or `none` where it returns 0. -/
def networkstatusComputeBwWeightsV10 (scale : ℤ) (t : BwTotals) :
    Except WeightScaleFailure (Option Bytes) :=
  match bwWeightsV10 scale t with
  | none => .ok none
  | some w => do
    torAssert (0 < scale ∧ scale ≤ 2147483647) .weightScale
    return some (bandwidthWeightsLine w scale)

/-! ## What the check accepts -/

/-- Every weight is in range, and those of one kind of relay are the whole. -/
structure BwWeights.Sane (w : BwWeights) (scale : ℤ) : Prop where
  range : ∀ x ∈ w.all, 0 ≤ x ∧ x ≤ scale
  guards : |w.Wmg + w.Wgg - scale| ≤ 10
  exits : |w.Wme + w.Wee - scale| ≤ 10
  both : |w.Wed + w.Wmd + w.Wgd - scale| ≤ 10

/-- Guards and exits get the same bandwidth. -/
def BwWeights.BalancedEg (w : BwWeights) (t : BwTotals) : Prop :=
  |w.Wgg * t.G + w.Wgd * t.D - (w.Wee * t.E + w.Wed * t.D)| ≤ (10 * t.T).tdiv 3

/-- The middle gets as much as the guards. -/
def BwWeights.BalancedMid (w : BwWeights) (scale : ℤ) (t : BwTotals) : Prop :=
  |w.Wgg * t.G + w.Wgd * t.D - (t.M * scale + w.Wmd * t.D + w.Wme * t.E + w.Wmg * t.G)|
    ≤ (10 * t.T).tdiv 3

section Check

variable {scale : ℤ} {t : BwTotals} {w : BwWeights}

theorem checkEq_iff {a b margin : ℤ} : checkEq a b margin = true ↔ |a - b| ≤ margin := by
  unfold checkEq
  split_ifs with h
  · rw [abs_of_nonneg h, decide_eq_true_iff]
  · rw [abs_of_neg (not_le.mp h), decide_eq_true_iff, neg_sub]

theorem rangeCheck_iff {mx : ℤ} : rangeCheck w mx = true ↔ ∀ x ∈ w.all, 0 ≤ x ∧ x ≤ mx := by
  simp [rangeCheck]

/-- The error is none or that of the middle if the weights are sane and balanced otherwise. -/
theorem check_tolerated_iff :
    (networkstatusCheckWeights w scale t 10 = .noError
      ∨ networkstatusCheckWeights w scale t 10 = .balanceMidError)
      ↔ w.Sane scale ∧ w.BalancedEg t := by
  constructor
  · intro h
    unfold networkstatusCheckWeights at h
    simp only [Bool.not_eq_true'] at h
    split_ifs at h with hboth hguards hexits hrange heg hmid
    all_goals simp only [or_self, or_false, false_or] at h
    all_goals
      rw [Bool.not_eq_false] at hboth hguards hexits hrange heg
      exact ⟨⟨rangeCheck_iff.mp hrange, checkEq_iff.mp hguards, checkEq_iff.mp hexits,
        checkEq_iff.mp hboth⟩, checkEq_iff.mp heg⟩
  · rintro ⟨hsane, heg⟩
    unfold networkstatusCheckWeights
    rw [checkEq_iff.mpr hsane.both, checkEq_iff.mpr hsane.guards, checkEq_iff.mpr hsane.exits,
      rangeCheck_iff.mpr hsane.range, checkEq_iff.mpr heg]
    simp only [Bool.not_true, Bool.false_eq_true, if_false]
    split_ifs
    · exact .inr rfl
    · exact .inl rfl

theorem check_noError_iff :
    networkstatusCheckWeights w scale t 10 = .noError
      ↔ w.Sane scale ∧ w.BalancedEg t ∧ w.BalancedMid scale t := by
  constructor
  · intro h
    obtain ⟨hsane, heg⟩ := check_tolerated_iff.mp (.inl h)
    refine ⟨hsane, heg, ?_⟩
    by_contra hmid
    rw [BwWeights.BalancedMid, ← checkEq_iff, Bool.not_eq_true] at hmid
    unfold networkstatusCheckWeights at h
    rw [checkEq_iff.mpr hsane.both, checkEq_iff.mpr hsane.guards, checkEq_iff.mpr hsane.exits,
      rangeCheck_iff.mpr hsane.range, checkEq_iff.mpr heg, hmid] at h
    exact absurd h (by decide)
  · rintro ⟨hsane, heg, hmid⟩
    unfold networkstatusCheckWeights
    rw [checkEq_iff.mpr hsane.both, checkEq_iff.mpr hsane.guards, checkEq_iff.mpr hsane.exits,
      rangeCheck_iff.mpr hsane.range, checkEq_iff.mpr heg, checkEq_iff.mpr hmid]
    rfl

theorem ifBalanced_eq_some {v : BwWeights} :
    ifBalanced scale t w = some v ↔
      v = w ∧ w.Sane scale ∧ w.BalancedEg t ∧ w.BalancedMid scale t := by
  rw [← check_noError_iff]
  unfold ifBalanced
  split_ifs with h
  · exact ⟨fun heq => ⟨(Option.some.inj heq).symm, h⟩, fun heq => by rw [heq.1]⟩
  · exact ⟨(fun heq => nomatch heq), fun heq => absurd heq.2 h⟩

/-- What the case with two attempts returns is sane. -/
theorem weightsCase2b_sane (h : weightsCase2b scale t = some w) : w.Sane scale := by
  unfold weightsCase2b at h
  dsimp only at h
  split_ifs at h with hfirst hsecond
  · rw [← Option.some.inj h]
    exact (check_noError_iff.mp hfirst).1
  · rw [← Option.some.inj h]
    rw [not_and_or, not_not, not_not] at hsecond
    exact (check_tolerated_iff.mp hsecond).1

/-- Half of a part of the scale. -/
theorem half_range {a b : ℤ} (hs : 0 ≤ scale) (ha : 0 ≤ a) (hb : 0 < b) (hle : a ≤ b) :
    0 ≤ (scale * a).tdiv (2 * b) ∧ (scale * a).tdiv (2 * b) ≤ scale := by
  have hnum : 0 ≤ scale * a := mul_nonneg hs ha
  refine ⟨Int.tdiv_nonneg hnum (by omega), (tdiv_le_iff (by omega) hs).mpr ?_⟩
  nlinarith

theorem weightsCase2a_sane (hs : 0 ≤ scale) : (weightsCase2a scale t).Sane scale := by
  unfold weightsCase2a
  dsimp only
  split_ifs
  · refine ⟨?_, ?_, ?_, ?_⟩ <;> simp [BwWeights.all, hs]
  · refine ⟨?_, ?_, ?_, ?_⟩ <;> simp [BwWeights.all, hs]

theorem weightsCase3a_sane (hs : 0 ≤ scale) (hG : 0 < t.G) (hM : 0 < t.M) (hE : 0 < t.E) :
    (weightsCase3a scale t).Sane scale := by
  unfold weightsCase3a
  dsimp only
  split_ifs with hGE hEM hGM
  · refine ⟨?_, ?_, ?_, ?_⟩ <;> simp [BwWeights.all, hs]
  · obtain ⟨hlo, hhi⟩ := half_range (a := t.E - t.M) (b := t.E) hs (by omega) hE (by omega)
    refine ⟨?_, ?_, ?_, ?_⟩ <;> simp [BwWeights.all, hs, hlo, hhi]
  · refine ⟨?_, ?_, ?_, ?_⟩ <;> simp [BwWeights.all, hs]
  · obtain ⟨hlo, hhi⟩ := half_range (a := t.G - t.M) (b := t.G) hs (by omega) hG (by omega)
    refine ⟨?_, ?_, ?_, ?_⟩ <;> simp [BwWeights.all, hs, hlo, hhi]

end Check

/-- **The weights that are emitted are sane.** -/
theorem bw_weights_sane {t : BwTotals} {scale : ℤ} (hpos : 0 < t.G ∧ 0 < t.M ∧ 0 < t.E ∧ 0 < t.D)
    (hscale : 1 ≤ scale ∧ scale ≤ 2147483647) {line : Bytes}
    (h : networkstatusComputeBwWeightsV10 scale t = .ok (some line)) :
    ∃ w : BwWeights, bwWeightsV10 scale t = some w ∧ line = bandwidthWeightsLine w scale
      ∧ w.Sane scale := by
  obtain ⟨hG, hM, hE, -⟩ := hpos
  have hs : 0 ≤ scale := by omega
  unfold networkstatusComputeBwWeightsV10 at h
  split at h
  next => cases h
  next w hw =>
    obtain ⟨-, -, hline⟩ := bind_eq_ok.mp h
    refine ⟨w, hw, (Option.some.inj (Except.ok.inj hline)).symm, ?_⟩
    unfold bwWeightsV10 at hw
    split_ifs at hw
    · exact (ifBalanced_eq_some.mp hw).1 ▸ (ifBalanced_eq_some.mp hw).2.1
    · exact Option.some.inj hw ▸ weightsCase2a_sane hs
    · exact weightsCase2b_sane hw
    · exact Option.some.inj hw ▸ weightsCase3a_sane hs hG hM hE
    · exact (ifBalanced_eq_some.mp hw).1 ▸ (ifBalanced_eq_some.mp hw).2.1

/-- Guards alone are scarce. -/
theorem bw_weights_sane_guards :
    ∃ w : BwWeights, bwWeightsV10 10000 ⟨1, 1, 4, 1, 7⟩ = some w ∧ w.Sane 10000 := by
  have hline : ∃ line, networkstatusComputeBwWeightsV10 10000 ⟨1, 1, 4, 1, 7⟩ = .ok (some line) :=
    ⟨_, rfl⟩
  obtain ⟨line, hline⟩ := hline
  obtain ⟨w, hw, -, hsane⟩ := bw_weights_sane (by decide) (by decide) hline
  exact ⟨w, hw, hsane⟩

/-! ## When weights exist -/

section Balance

variable {t : BwTotals}

/-- Totals that are not empty. -/
structure BwTotals.Full (t : BwTotals) : Prop where
  G : 0 < t.G
  M : 0 < t.M
  E : 0 < t.E
  D : 0 < t.D
  T : t.T = t.G + t.M + t.E + t.D

theorem weightsCase1_balanced (h : t.Full) (hE : t.T ≤ 3 * t.E) (hG : t.T ≤ 3 * t.G) :
    (weightsCase1 10000 t).Sane 10000 ∧ (weightsCase1 10000 t).BalancedEg t
      ∧ (weightsCase1 10000 t).BalancedMid 10000 t := by
  obtain ⟨hG', hM', hE', hD', hT⟩ := h
  obtain ⟨Wee, hWee, hWee₁, hWee₂⟩ :=
    exists_tdiv (a := 10000 * (t.E + t.G + t.M)) (b := 3 * t.E) (by omega) (by omega)
  obtain ⟨Wmg, hWmg, hWmg₁, hWmg₂⟩ :=
    exists_tdiv (a := 10000 * (2 * t.G - t.E - t.M)) (b := 3 * t.G) (by omega) (by omega)
  obtain ⟨m, hm, -, hm₂⟩ := exists_tdiv (a := 10 * t.T) (b := 3) (by omega) (by omega)
  have hWee₃ : 0 ≤ Wee := hWee ▸ (tdiv_nonneg_iff (by omega)).mpr (by omega)
  have hWee₄ : Wee ≤ 10000 := hWee ▸ (tdiv_le_iff (by omega) (by omega)).mpr (by omega)
  have hWmg₃ : 0 ≤ Wmg := hWmg ▸ (tdiv_nonneg_iff (by omega)).mpr (by omega)
  have hWmg₄ : Wmg ≤ 10000 := hWmg ▸ (tdiv_le_iff (by omega) (by omega)).mpr (by omega)
  have hthird : (10000 : ℤ).tdiv 3 = 3333 := rfl
  unfold weightsCase1
  dsimp only
  rw [hWee, hWmg, hthird]
  refine ⟨⟨?_, ?_, ?_, ?_⟩, ?_, ?_⟩
  · simp only [BwWeights.all, List.forall_mem_cons, List.not_mem_nil, false_implies, implies_true,
      and_true]
    omega
  · simp
  · simp
  · norm_num
  · rw [BwWeights.BalancedEg, hm, abs_le]
    constructor <;> dsimp only <;> linarith
  · rw [BwWeights.BalancedMid, hm, abs_le]
    constructor <;> dsimp only <;> linarith

theorem weightsCase3b_balanced (h : t.Full) (hscarce : 3 * t.E < t.T ∨ 3 * t.G < t.T)
    (hone : t.T ≤ 3 * t.E ∨ t.T ≤ 3 * t.G) (hD : t.T ≤ 3 * (min t.E t.G + t.D)) :
    (weightsCase3b 10000 t).Sane 10000 ∧ (weightsCase3b 10000 t).BalancedEg t
      ∧ (weightsCase3b 10000 t).BalancedMid 10000 t := by
  obtain ⟨hG', hM', hE', hD', hT⟩ := h
  obtain ⟨m, hm, -, hm₂⟩ := exists_tdiv (a := 10 * t.T) (b := 3) (by omega) (by omega)
  unfold weightsCase3b
  dsimp only
  split_ifs with hGE
  · obtain ⟨Wgd, hWgd, hWgd₁, hWgd₂⟩ :=
      exists_tdiv (a := 10000 * (t.D - 2 * t.G + t.E + t.M)) (b := 3 * t.D) (by omega) (by omega)
    obtain ⟨Wee, hWee, hWee₁, hWee₂⟩ :=
      exists_tdiv (a := 10000 * (t.E + t.M)) (b := 2 * t.E) (by omega) (by omega)
    have hWgd₃ : 0 ≤ Wgd := hWgd ▸ (tdiv_nonneg_iff (by omega)).mpr (by omega)
    have hWgd₄ : Wgd ≤ 10000 := hWgd ▸ (tdiv_le_iff (by omega) (by omega)).mpr (by omega)
    have hWee₃ : 0 ≤ Wee := hWee ▸ (tdiv_nonneg_iff (by omega)).mpr (by omega)
    have hWee₄ : Wee ≤ 10000 := hWee ▸ (tdiv_le_iff (by omega) (by omega)).mpr (by omega)
    obtain ⟨half, hhalf, hhalf₁, hhalf₂⟩ :=
      exists_tdiv (a := 10000 - Wgd) (b := 2) (by omega) (by omega)
    -- the halves are off by at most one, and so is their bandwidth by `D`
    have hD₁ : 2 * half * t.D ≤ (10000 - Wgd) * t.D := mul_le_mul_of_nonneg_right hhalf₁ hD'.le
    have hD₂ : (10000 - Wgd) * t.D ≤ (2 * half + 1) * t.D :=
      mul_le_mul_of_nonneg_right (by omega) hD'.le
    rw [hWgd, hWee, hhalf]
    refine ⟨⟨?_, ?_, ?_, ?_⟩, ?_, ?_⟩
    · simp only [BwWeights.all, List.forall_mem_cons, List.not_mem_nil, false_implies,
        implies_true, and_true]
      omega
    · norm_num
    · norm_num
    · dsimp only
      rw [abs_le]
      omega
    · rw [BwWeights.BalancedEg, hm, abs_le]
      constructor <;> dsimp only <;> linarith
    · rw [BwWeights.BalancedMid, hm, abs_le]
      constructor <;> dsimp only <;> linarith
  · obtain ⟨Wed, hWed, hWed₁, hWed₂⟩ :=
      exists_tdiv (a := 10000 * (t.D - 2 * t.E + t.G + t.M)) (b := 3 * t.D) (by omega) (by omega)
    obtain ⟨Wgg, hWgg, hWgg₁, hWgg₂⟩ :=
      exists_tdiv (a := 10000 * (t.G + t.M)) (b := 2 * t.G) (by omega) (by omega)
    have hWed₃ : 0 ≤ Wed := hWed ▸ (tdiv_nonneg_iff (by omega)).mpr (by omega)
    have hWed₄ : Wed ≤ 10000 := hWed ▸ (tdiv_le_iff (by omega) (by omega)).mpr (by omega)
    have hWgg₃ : 0 ≤ Wgg := hWgg ▸ (tdiv_nonneg_iff (by omega)).mpr (by omega)
    have hWgg₄ : Wgg ≤ 10000 := hWgg ▸ (tdiv_le_iff (by omega) (by omega)).mpr (by omega)
    obtain ⟨half, hhalf, hhalf₁, hhalf₂⟩ :=
      exists_tdiv (a := 10000 - Wed) (b := 2) (by omega) (by omega)
    have hD₁ : 2 * half * t.D ≤ (10000 - Wed) * t.D := mul_le_mul_of_nonneg_right hhalf₁ hD'.le
    have hD₂ : (10000 - Wed) * t.D ≤ (2 * half + 1) * t.D :=
      mul_le_mul_of_nonneg_right (by omega) hD'.le
    rw [hWed, hWgg, hhalf]
    refine ⟨⟨?_, ?_, ?_, ?_⟩, ?_, ?_⟩
    · simp only [BwWeights.all, List.forall_mem_cons, List.not_mem_nil, false_implies,
        implies_true, and_true]
      omega
    · norm_num
    · norm_num
    · dsimp only
      rw [abs_le]
      omega
    · rw [BwWeights.BalancedEg, hm, abs_le]
      constructor <;> dsimp only <;> linarith
    · rw [BwWeights.BalancedMid, hm, abs_le]
      constructor <;> dsimp only <;> linarith

/-- Guards and exits are both scarce, and neither so much that it gets all of the relays that are
both. -/
structure BwTotals.BothScarce (t : BwTotals) : Prop where
  exits : 3 * t.E < t.T
  guards : 3 * t.G < t.T
  both : max t.E t.G ≤ min t.E t.G + t.D

/-- More than a third of the bandwidth is in the middle, by no more than the rounding of the first
weights hides. -/
def BwTotals.HiddenFirst (t : BwTotals) : Prop :=
  10000 * (t.M - t.G) < t.E ∧ 10000 * (2 * t.E + 2 * t.M - 4 * t.G - t.D) < 3 * t.D

/-- The same for the margin of the second weights. -/
def BwTotals.HiddenSecond (t : BwTotals) : Prop :=
  10000 * (t.G + t.M - 2 * t.E - 2 * t.D) < 3 * t.D
    ∧ 10000 * (3 * t.M - t.T) ≤ 10 * t.T + 2 * (10000 * (t.T - 3 * t.E) % (3 * t.D))

/-- Without too much in the middle the second weights are good. -/
theorem weightsCase2b2_tolerated (h : t.Full) (hs : t.BothScarce) (hM : 3 * t.M ≤ t.T) :
    (weightsCase2b2 10000 t).Sane 10000 ∧ (weightsCase2b2 10000 t).BalancedEg t := by
  obtain ⟨hG', hM', hE', hD', hT⟩ := h
  obtain ⟨hE, hG, hD⟩ := hs
  obtain ⟨m, hm, -, hm₂⟩ := exists_tdiv (a := 10 * t.T) (b := 3) (by omega) (by omega)
  obtain ⟨Wed, hWed, hWed₁, hWed₂⟩ :=
    exists_tdiv (a := 10000 * (t.D - 2 * t.E + t.G + t.M)) (b := 3 * t.D) (by omega) (by omega)
  obtain ⟨Wmd, hWmd, hWmd₁, hWmd₂⟩ :=
    exists_tdiv (a := 10000 * (t.D - 2 * t.M + t.G + t.E)) (b := 3 * t.D) (by omega) (by omega)
  have hWed₃ : 0 ≤ Wed := hWed ▸ (tdiv_nonneg_iff (by omega)).mpr (by omega)
  have hWmd₃ : 0 ≤ Wmd := hWmd ▸ (tdiv_nonneg_iff (by omega)).mpr (by omega)
  -- what is left for the guards is what they are short of
  have hsum : Wed + Wmd ≤ 10000 := by
    have hlt : 3 * t.D * (Wed + Wmd) ≤ 3 * t.D * 10000 := by linarith
    exact le_of_mul_le_mul_left hlt (by omega)
  unfold weightsCase2b2
  dsimp only
  rw [hWed, hWmd, if_neg (not_lt.mpr hWmd₃)]
  refine ⟨⟨?_, ?_, ?_, ?_⟩, ?_⟩
  · simp only [BwWeights.all, List.forall_mem_cons, List.not_mem_nil, false_implies, implies_true,
      and_true]
    omega
  · simp
  · simp
  · dsimp only
    rw [abs_le]
    omega
  · rw [BwWeights.BalancedEg, hm, abs_le]
    constructor <;> dsimp only <;> linarith

/-- With too much in the middle the first weights are good if rounding hides it. -/
theorem weightsCase2b1_balanced_iff (h : t.Full) (hs : t.BothScarce) (hM : t.T < 3 * t.M) :
    ((weightsCase2b1 10000 t).Sane 10000 ∧ (weightsCase2b1 10000 t).BalancedEg t
      ∧ (weightsCase2b1 10000 t).BalancedMid 10000 t) ↔ t.HiddenFirst := by
  obtain ⟨hG', hM', hE', hD', hT⟩ := h
  obtain ⟨hE, hG, hD⟩ := hs
  constructor
  · rintro ⟨⟨hrange, -, -, -⟩, -⟩
    unfold weightsCase2b1 at hrange
    simp only [BwWeights.all, List.forall_mem_cons, List.not_mem_nil, false_implies, implies_true,
      and_true] at hrange
    obtain ⟨-, -, -, -, -, ⟨hWed, -⟩, -, hWee⟩ := hrange
    rw [tdiv_nonneg_iff (by omega)] at hWed
    rw [tdiv_le_iff (by omega) (by omega)] at hWee
    constructor
    · omega
    · omega
  · rintro ⟨hmid, hboth⟩
    obtain ⟨m, hm, -, hm₂⟩ := exists_tdiv (a := 10 * t.T) (b := 3) (by omega) (by omega)
    have hWme : (10000 * (t.G - t.M)).tdiv t.E = 0 := by
      have hlo := (tdiv_nonneg_iff (a := 10000 * (t.G - t.M)) hE').mpr (by omega)
      have hhi := (tdiv_le_iff (a := 10000 * (t.G - t.M)) hE' le_rfl).mpr (by omega)
      omega
    have hWee : (10000 * (t.E - t.G + t.M)).tdiv t.E = 10000 := by
      have hhi := (tdiv_le_iff (a := 10000 * (t.E - t.G + t.M)) (c := 10000) hE' (by omega)).mpr
        (by omega)
      have hlo : 10000 ≤ (10000 * (t.E - t.G + t.M)).tdiv t.E := by
        by_contra hless
        have hle : (10000 * (t.E - t.G + t.M)).tdiv t.E ≤ 9999 := by omega
        rw [tdiv_le_iff hE' (by omega)] at hle
        omega
      omega
    obtain ⟨hWed₁, hWed₂⟩ :=
      tdiv_error (a := 10000 * (t.D - 2 * t.E + 4 * t.G - 2 * t.M)) (b := 3 * t.D) (by omega)
    have hWed₃ := (tdiv_nonneg_iff (a := 10000 * (t.D - 2 * t.E + 4 * t.G - 2 * t.M))
      (b := 3 * t.D) (by omega)).mpr (by omega)
    have hWed₄ := (tdiv_le_iff (a := 10000 * (t.D - 2 * t.E + 4 * t.G - 2 * t.M))
      (b := 3 * t.D) (c := 10000) (by omega) (by omega)).mpr (by omega)
    unfold weightsCase2b1
    dsimp only
    rw [hWme, hWee]
    generalize (10000 * (t.D - 2 * t.E + 4 * t.G - 2 * t.M)).tdiv (3 * t.D) = Wed at *
    obtain ⟨half, hhalf, hhalf₁, hhalf₂⟩ :=
      exists_tdiv (a := 10000 - Wed) (b := 2) (by omega) (by omega)
    have hD₁ : 2 * half * t.D ≤ (10000 - Wed) * t.D := mul_le_mul_of_nonneg_right hhalf₁ hD'.le
    have hD₂ : (10000 - Wed) * t.D ≤ (2 * half + 1) * t.D :=
      mul_le_mul_of_nonneg_right (by omega) hD'.le
    rw [hhalf]
    refine ⟨⟨?_, ?_, ?_, ?_⟩, ?_, ?_⟩
    · simp only [BwWeights.all, List.forall_mem_cons, List.not_mem_nil, false_implies,
        implies_true, and_true]
      omega
    · simp
    · simp
    · dsimp only
      rw [abs_le]
      omega
    · rw [BwWeights.BalancedEg, hm, abs_le]
      constructor <;> dsimp only <;> linarith
    · rw [BwWeights.BalancedMid, hm, abs_le]
      constructor <;> dsimp only <;> linarith

/-- The second weights are good if it stays in the margin. -/
theorem weightsCase2b2_tolerated_iff (h : t.Full) (hs : t.BothScarce) (hM : t.T < 3 * t.M) :
    ((weightsCase2b2 10000 t).Sane 10000 ∧ (weightsCase2b2 10000 t).BalancedEg t)
      ↔ t.HiddenSecond := by
  obtain ⟨hG', hM', hE', hD', hT⟩ := h
  obtain ⟨hE, hG, hD⟩ := hs
  obtain ⟨m, hm, hm₁, hm₂⟩ := exists_tdiv (a := 10 * t.T) (b := 3) (by omega) (by omega)
  have hnum : 10000 * (t.D - 2 * t.E + t.G + t.M) = 10000 * (t.T - 3 * t.E) := by omega
  have hWed₃ := (tdiv_nonneg_iff (a := 10000 * (t.T - 3 * t.E)) (b := 3 * t.D) (by omega)).mpr
    (by omega)
  have hWed₄ := tdiv_le_iff (a := 10000 * (t.T - 3 * t.E)) (b := 3 * t.D) (c := 10000) (by omega)
    (by omega)
  -- the middle gets nothing of the relays that are both
  have hWmd : (10000 * (t.D - 2 * t.M + t.G + t.E)).tdiv (3 * t.D) ≤ 0 :=
    (tdiv_le_iff (by omega) le_rfl).mpr (by omega)
  have hw : weightsCase2b2 10000 t =
      { Wgg := 10000, Wee := 10000, Wed := (10000 * (t.T - 3 * t.E)).tdiv (3 * t.D), Wmd := 0,
        Wme := 0, Wmg := 0, Wgd := 10000 - (10000 * (t.T - 3 * t.E)).tdiv (3 * t.D) - 0 } := by
    unfold weightsCase2b2
    dsimp only
    rw [hnum]
    split_ifs with hneg
    · rfl
    · rw [le_antisymm hWmd (not_lt.mp hneg)]
  have hsplit : 3 * t.D * (10000 * (t.T - 3 * t.E)).tdiv (3 * t.D)
      + 10000 * (t.T - 3 * t.E) % (3 * t.D) = 10000 * (t.T - 3 * t.E) := by
    rw [Int.tdiv_eq_ediv_of_nonneg (by omega)]
    exact Int.mul_ediv_add_emod _ _
  have hrest := Int.emod_nonneg (10000 * (t.T - 3 * t.E)) (b := 3 * t.D) (by omega)
  have hrest' := Int.emod_lt_of_pos (10000 * (t.T - 3 * t.E)) (b := 3 * t.D) (by omega)
  rw [hw, BwTotals.HiddenSecond, BwWeights.BalancedEg, hm]
  dsimp only
  generalize (10000 * (t.T - 3 * t.E)).tdiv (3 * t.D) = Wed at *
  generalize 10000 * (t.T - 3 * t.E) % (3 * t.D) = rest at *
  have hrange : Wed ≤ 10000 ↔ 10000 * (t.G + t.M - 2 * t.E - 2 * t.D) < 3 * t.D := by
    rw [hWed₄]
    constructor <;> intro <;> linarith
  have hdiff : 3 * (10000 * t.G + (10000 - Wed - 0) * t.D - (10000 * t.E + Wed * t.D)) =
      2 * rest - 10000 * (3 * t.M - t.T) := by
    linear_combination -2 * hsplit - 30000 * hT
  generalize 10000 * t.G + (10000 - Wed - 0) * t.D - (10000 * t.E + Wed * t.D) = x at *
  rw [abs_le, ← hrange]
  constructor
  · rintro ⟨⟨hr, -, -, -⟩, heg⟩
    simp only [BwWeights.all, List.forall_mem_cons, List.not_mem_nil, false_implies, implies_true,
      and_true] at hr
    omega
  · rintro ⟨hle, heg⟩
    refine ⟨⟨?_, ?_, ?_, ?_⟩, ?_⟩
    · simp only [BwWeights.all, List.forall_mem_cons, List.not_mem_nil, false_implies,
        implies_true, and_true]
      omega
    · simp
    · simp
    · dsimp only
      rw [abs_le]
      omega
    · omega

theorem weightsCase2b_isSome_iff (h : t.Full) (hs : t.BothScarce) :
    (weightsCase2b 10000 t).isSome = true ↔
      3 * t.M ≤ t.T ∨ t.HiddenFirst ∨ t.HiddenSecond := by
  have hcase : (weightsCase2b 10000 t).isSome = true ↔
      ((weightsCase2b1 10000 t).Sane 10000 ∧ (weightsCase2b1 10000 t).BalancedEg t
        ∧ (weightsCase2b1 10000 t).BalancedMid 10000 t)
      ∨ ((weightsCase2b2 10000 t).Sane 10000 ∧ (weightsCase2b2 10000 t).BalancedEg t) := by
    rw [← check_noError_iff, ← check_tolerated_iff]
    unfold weightsCase2b
    dsimp only
    split_ifs with hfirst hsecond
    · simp [hfirst]
    · rw [← not_or] at hsecond
      simp [hfirst, hsecond]
    · rw [not_and_or, not_not, not_not] at hsecond
      simp [hsecond]
  rw [hcase]
  by_cases hM : 3 * t.M ≤ t.T
  · exact ⟨fun _ => .inl hM, fun _ => .inr (weightsCase2b2_tolerated h hs hM)⟩
  · rw [weightsCase2b1_balanced_iff h hs (not_le.mp hM),
      weightsCase2b2_tolerated_iff h hs (not_le.mp hM), or_iff_right hM]

end Balance

/-- The totals for which there are weights. -/
def BwTotals.Weighable (t : BwTotals) : Prop :=
  t.BothScarce → 3 * t.M ≤ t.T ∨ t.HiddenFirst ∨ t.HiddenSecond

/-- **When there are weights.** For totals that are not empty and the scale 10000 they exist unless
guards and exits are both scarce and more than a third of the bandwidth is in the middle. -/
theorem bw_weights_exist_iff {t : BwTotals} (h : t.Full) :
    (∃ line, networkstatusComputeBwWeightsV10 10000 t = .ok (some line)) ↔ t.Weighable := by
  have hsome : (∃ line, networkstatusComputeBwWeightsV10 10000 t = .ok (some line)) ↔
      (bwWeightsV10 10000 t).isSome = true := by
    unfold networkstatusComputeBwWeightsV10
    cases bwWeightsV10 10000 t with
    | none => simp
    | some w => exact ⟨fun _ => rfl, fun _ => ⟨_, rfl⟩⟩
  have hfull : ¬ (t.G ≤ 0 ∨ t.M ≤ 0 ∨ t.E ≤ 0 ∨ t.D ≤ 0) := by
    have := h.G
    have := h.M
    have := h.E
    have := h.D
    omega
  rw [hsome]
  unfold bwWeightsV10
  rw [if_neg hfull]
  split_ifs with hplenty hscarce hone hone'
  · rw [ifBalanced, if_pos (check_noError_iff.mpr (weightsCase1_balanced h hplenty.1 hplenty.2))]
    exact ⟨fun _ hs => absurd hs.exits (not_lt.mpr hplenty.1), fun _ => rfl⟩
  · exact ⟨fun _ hs => absurd hs.both (not_le.mpr hone), fun _ => rfl⟩
  · have hs : t.BothScarce := ⟨hscarce.1, hscarce.2, not_lt.mp hone⟩
    rw [weightsCase2b_isSome_iff h hs]
    exact ⟨fun hok _ => hok, fun hok => hok hs⟩
  · exact ⟨fun _ hs => absurd ⟨hs.exits, hs.guards⟩ hscarce, fun _ => rfl⟩
  · have hbalanced := weightsCase3b_balanced h (by omega) (by omega) (not_lt.mp hone')
    rw [ifBalanced, if_pos (check_noError_iff.mpr hbalanced)]
    exact ⟨fun _ hs => absurd ⟨hs.exits, hs.guards⟩ hscarce, fun _ => rfl⟩

/-- A network of one guard, one exit, one relay that is both, and two in the middle. -/
theorem bw_weights_exist_even :
    ∃ line, networkstatusComputeBwWeightsV10 10000 ⟨2, 1, 2, 1, 6⟩ = .ok (some line) := by
  refine (bw_weights_exist_iff ⟨by decide, by decide, by decide, by decide, by decide⟩).mpr ?_
  exact fun hs => absurd hs.exits (by decide)

/-- **Much bandwidth in the middle leaves no weights.** -/
theorem middle_without_weights :
    BwTotals.Full ⟨1, 1000, 1, 1, 1003⟩
      ∧ networkstatusComputeBwWeightsV10 10000 ⟨1, 1000, 1, 1, 1003⟩ = .ok none := by
  refine ⟨⟨by decide, by decide, by decide, by decide, by decide⟩, ?_⟩
  decide

end Dittor.Tor

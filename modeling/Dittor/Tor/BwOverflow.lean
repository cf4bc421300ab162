import Mathlib
import Dittor.Tor.BwInt64

/-!
# Which bandwidth weights overflow (`dirvote.c`)

The weights multiply the totals by a scale that the votes decide. Only the cast of the weights at
the end assumes that the scale is about 10000, and there it is asserted to fit an `int`; by then
the products have been computed.

`BwTotals.Fits` collects the products that have to fit, case by case, and
`bwWeightsV10Int64_settles` says that nothing else can go wrong. For 10000 routers they fit up to
the scale 214748 and no further (`bw_arithmetic_defined_iff`).
-/

namespace Dittor.Tor

open Dittor.Lib

/-! ## What has to fit -/

section Fits

variable (scale : ℤ) (t : BwTotals)

/-- The products of case 1. -/
def BwTotals.Case1Fits : Prop :=
  InInt 64 (scale * (t.E + t.G + t.M)) ∧ InInt 64 (scale * (2 * t.G - t.E - t.M))

/-- The products of case 2b1. -/
def BwTotals.Case2b1Fits : Prop :=
  InInt 64 (scale * (t.E - t.G + t.M))
    ∧ InInt 64 (scale * (t.D - 2 * t.E + 4 * t.G - 2 * t.M)) ∧ InInt 64 (scale * (t.G - t.M))

/-- The products of case 2b2. -/
def BwTotals.Case2b2Fits : Prop :=
  InInt 64 (scale * (t.D - 2 * t.E + t.G + t.M))
    ∧ InInt 64 (scale * (t.D - 2 * t.M + t.G + t.E))

/-- The second weights of case 2b are computed if the check rejects the first. -/
def BwTotals.Case2bFits : Prop :=
  t.Case2b1Fits scale ∧ (weightsCase2b1 scale t).SumsFit scale t
    ∧ (networkstatusCheckWeights (weightsCase2b1 scale t) scale t 10 ≠ .noError →
      t.Case2b2Fits scale ∧ (weightsCase2b2 scale t).SumsFit scale t)

/-- The product of case 3a, of which a part of the network may have none. -/
def BwTotals.Case3aFits : Prop :=
  if t.G < t.E then t.M ≤ t.E → InInt 64 (scale * (t.E - t.M))
  else t.M ≤ t.G → InInt 64 (scale * (t.G - t.M))

/-- The products of case 3b. -/
def BwTotals.Case3bFits : Prop :=
  if t.G < t.E then
    InInt 64 (scale * (t.D - 2 * t.G + t.E + t.M)) ∧ InInt 64 (scale * (t.E + t.M))
  else InInt 64 (scale * (t.D - 2 * t.E + t.G + t.M)) ∧ InInt 64 (scale * (t.G + t.M))

/-- The products of the case that the totals are in. -/
def BwTotals.Fits : Prop :=
  if t.G ≤ 0 ∨ t.M ≤ 0 ∨ t.E ≤ 0 ∨ t.D ≤ 0 then True
  else if t.T ≤ 3 * t.E ∧ t.T ≤ 3 * t.G then
    t.Case1Fits scale ∧ (weightsCase1 scale t).SumsFit scale t
  else if 3 * t.E < t.T ∧ 3 * t.G < t.T then
    if min t.E t.G + t.D < max t.E t.G then True else t.Case2bFits scale
  else if 3 * (min t.E t.G + t.D) < t.T then t.Case3aFits scale
  else t.Case3bFits scale ∧ (weightsCase3b scale t).SumsFit scale t

end Fits

/-! ## The cases -/

section Part

variable {ε : Type} {scale a b : ℤ}

/-- The part of case 3a that one kind of relays gives to the middle. -/
theorem settles_part (ha : 0 < a) (ha' : a ≤ 30000000000000) (hb : 0 < b) :
    Settles (if a < b then pure 0
        else do mulQuoInt 64 scale (← subInt 64 a b) (← mulInt 64 2 a) : Except (Fault ε) ℤ)
      (b ≤ a → InInt 64 (scale * (a - b))) (if a < b then 0 else (scale * (a - b)).tdiv (2 * a)) := by
  split_ifs with hab
  · exact (settles_ok 0).iff (iff_of_true trivial fun hle => absurd hab (not_lt.mpr hle))
  · simp (disch := omega) only [subInt64_eq, mulInt64_eq, ok_bind]
    exact (settles_mulQuoInt64 scale _ (by omega)).iff
      ⟨fun h _ => h, fun h => h (not_lt.mp hab)⟩

theorem part_range (ha : 0 < a) (hfits : b ≤ a → InInt 64 (scale * (a - b))) :
    -9223372036854775808 ≤ 2 * (if a < b then 0 else (scale * (a - b)).tdiv (2 * a))
      ∧ 2 * (if a < b then 0 else (scale * (a - b)).tdiv (2 * a)) ≤ 9223372036854775808 := by
  split_ifs with hab
  · decide
  · exact mul_tdiv_range (hfits (not_lt.mp hab)) (by decide) ha

end Part

section Cases

variable {ε : Type} {scale : ℤ} {t : BwTotals} (hscale : 1 ≤ scale ∧ scale ≤ 2147483647)
  (hpos : 0 < t.G ∧ 0 < t.M ∧ 0 < t.E ∧ 0 < t.D) (ht : t.After 10000)

include hscale hpos ht

theorem weightsCase1Int64_settles :
    Settles (weightsCase1Int64 scale t : Except (Fault ε) BwWeights) (t.Case1Fits scale)
      (weightsCase1 scale t) := by
  obtain ⟨hG, hM, hE, hD, hT, -, -⟩ := ht
  rw [abs_le] at hG hM hE hD hT
  have hthird : (quoInt 64 scale 3 : Except (Fault ε) ℤ) = .ok (scale.tdiv 3) :=
    quoInt64_eq (inInt64_iff.mpr (by omega)) (by decide)
  unfold weightsCase1Int64
  simp (disch := omega) only [hthird, addInt64_eq, subInt64_eq, mulInt64_eq, ok_bind]
  refine (settles_mulQuoInt64 scale _ (by omega)).bind fun hexits => ?_
  have hWee := mul_tdiv_range hexits (k := 3) (by decide) hpos.2.2.1
  refine Settles.of_ok (subInt64_eq (by omega) (by omega)) ?_
  refine ((settles_mulQuoInt64 scale _ (by omega)).bind (Q := True) fun hguards => ?_).iff
    (and_iff_left trivial)
  have hWmg := mul_tdiv_range hguards (k := 3) (by decide) hpos.1
  exact Settles.of_ok (subInt64_eq (by omega) (by omega)) (settles_ok _)

omit hpos ht in
theorem weightsCase1_addable : (weightsCase1 scale t).Addable := by
  have hthird := tdiv_error (a := scale) (b := 3) (by decide)
  unfold weightsCase1
  refine ⟨?_, ?_, ?_, ?_⟩
  all_goals
    dsimp only
    rw [abs_le]
    omega

theorem weightsCase2b1Int64_settles :
    Settles (weightsCase2b1Int64 scale t : Except (Fault ε) BwWeights) (t.Case2b1Fits scale)
      (weightsCase2b1 scale t) := by
  obtain ⟨hG, hM, hE, hD, hT, -, -⟩ := ht
  rw [abs_le] at hG hM hE hD hT
  unfold weightsCase2b1Int64
  simp (disch := omega) only [addInt64_eq, subInt64_eq, mulInt64_eq, ok_bind]
  refine (settles_mulQuoInt64 scale _ (by omega)).bind fun _ => ?_
  refine (settles_mulQuoInt64 scale _ (by omega)).bind fun hboth => ?_
  have hWed := mul_tdiv_range hboth (k := 3) (by decide) hpos.2.2.2
  refine ((settles_mulQuoInt64 scale _ (by omega)).bind (Q := True) fun _ => ?_).iff
    (and_iff_left trivial)
  refine Settles.of_ok (subInt64_eq (by omega) (by omega)) ?_
  exact Settles.of_ok (quoInt64_eq (inInt64_iff.mpr (by omega)) (by decide)) (settles_ok _)

omit ht in
theorem weightsCase2b1_addable (hfits : t.Case2b1Fits scale) :
    (weightsCase2b1 scale t).Addable := by
  obtain ⟨-, hboth, -⟩ := hfits
  have hWed := mul_tdiv_range hboth (k := 3) (by decide) hpos.2.2.2
  have hWee := tdiv_error (a := scale * (t.E - t.G + t.M)) hpos.2.2.1
  have hWme := tdiv_error (a := scale * (t.G - t.M)) hpos.2.2.1
  have hexits : |(scale * (t.G - t.M)).tdiv t.E + (scale * (t.E - t.G + t.M)).tdiv t.E|
      ≤ 9000000000000000000 := by
    -- the two numerators are the scale together
    have hlo : t.E * (scale - 2)
        < t.E * ((scale * (t.G - t.M)).tdiv t.E + (scale * (t.E - t.G + t.M)).tdiv t.E) := by
      linarith
    have hhi : t.E * ((scale * (t.G - t.M)).tdiv t.E + (scale * (t.E - t.G + t.M)).tdiv t.E)
        < t.E * (scale + 2) := by
      linarith
    have hlo' := lt_of_mul_lt_mul_left hlo hpos.2.2.1.le
    have hhi' := lt_of_mul_lt_mul_left hhi hpos.2.2.1.le
    rw [abs_le]
    omega
  have hhalf := tdiv_error
    (a := scale - (scale * (t.D - 2 * t.E + 4 * t.G - 2 * t.M)).tdiv (3 * t.D)) (b := 2) (by decide)
  unfold weightsCase2b1
  refine ⟨?_, ?_, ?_, ?_⟩
  · dsimp only
    rw [abs_le]
    omega
  · dsimp only
    rw [abs_le]
    omega
  · dsimp only
    rw [abs_le]
    omega
  · exact hexits

theorem weightsCase2b2Int64_settles :
    Settles (weightsCase2b2Int64 scale t : Except (Fault ε) BwWeights) (t.Case2b2Fits scale)
      (weightsCase2b2 scale t) := by
  obtain ⟨hG, hM, hE, hD, hT, -, -⟩ := ht
  rw [abs_le] at hG hM hE hD hT
  unfold weightsCase2b2Int64
  simp (disch := omega) only [addInt64_eq, subInt64_eq, mulInt64_eq, ok_bind]
  refine (settles_mulQuoInt64 scale _ (by omega)).bind fun hboth => ?_
  have hWed := mul_tdiv_range hboth (k := 3) (by decide) hpos.2.2.2
  refine ((settles_mulQuoInt64 scale _ (by omega)).bind (Q := True) fun hmiddle => ?_).iff
    (and_iff_left trivial)
  have hWmd := mul_tdiv_range hmiddle (k := 3) (by decide) hpos.2.2.2
  refine Settles.of_ok (subInt64_eq (by omega) (by omega)) ?_
  unfold weightsCase2b2
  dsimp only
  split_ifs with hneg
  · exact Settles.of_ok (subInt64_eq (by omega) (by omega)) (settles_ok _)
  · exact Settles.of_ok (subInt64_eq (by omega) (by omega)) (settles_ok _)

omit ht in
theorem weightsCase2b2_addable (hfits : t.Case2b2Fits scale) :
    (weightsCase2b2 scale t).Addable := by
  obtain ⟨hboth, hmiddle⟩ := hfits
  have hWed := mul_tdiv_range hboth (k := 3) (by decide) hpos.2.2.2
  have hWmd := mul_tdiv_range hmiddle (k := 3) (by decide) hpos.2.2.2
  unfold weightsCase2b2
  dsimp only
  split_ifs with hneg
  all_goals
    refine ⟨?_, ?_, ?_, ?_⟩
    all_goals
      dsimp only
      rw [abs_le]
      omega

theorem weightsCase3aInt64_settles :
    Settles (weightsCase3aInt64 scale t : Except (Fault ε) BwWeights) (t.Case3aFits scale)
      (weightsCase3a scale t) := by
  obtain ⟨hG, hM, hE, hD, hT, -, -⟩ := ht
  rw [abs_le] at hG hM hE hD hT
  unfold weightsCase3aInt64 weightsCase3a BwTotals.Case3aFits
  refine Settles.ite (fun _ => ?_) fun _ => ?_
  · refine ((settles_part (by omega) (by omega) (by omega)).bind (Q := True) fun hpart => ?_).iff
      (and_iff_left trivial)
    have hWme := part_range hpos.2.2.1 hpart
    exact Settles.of_ok (subInt64_eq (by omega) (by omega)) (settles_ok _)
  · refine ((settles_part (by omega) (by omega) (by omega)).bind (Q := True) fun hpart => ?_).iff
      (and_iff_left trivial)
    have hWmg := part_range hpos.1 hpart
    exact Settles.of_ok (subInt64_eq (by omega) (by omega)) (settles_ok _)

theorem weightsCase3bInt64_settles :
    Settles (weightsCase3bInt64 scale t : Except (Fault ε) BwWeights) (t.Case3bFits scale)
      (weightsCase3b scale t) := by
  obtain ⟨hG, hM, hE, hD, hT, -, -⟩ := ht
  rw [abs_le] at hG hM hE hD hT
  unfold weightsCase3bInt64 weightsCase3b BwTotals.Case3bFits
  refine Settles.ite (fun _ => ?_) fun _ => ?_
  · simp (disch := omega) only [addInt64_eq, subInt64_eq, mulInt64_eq, ok_bind]
    refine (settles_mulQuoInt64 scale _ (by omega)).bind fun hguards => ?_
    have hWgd := mul_tdiv_range hguards (k := 3) (by decide) hpos.2.2.2
    refine ((settles_mulQuoInt64 scale _ (by omega)).bind (Q := True) fun hexits => ?_).iff
      (and_iff_left trivial)
    have hWee := mul_tdiv_range hexits (k := 2) (by decide) hpos.2.2.1
    refine Settles.of_ok (subInt64_eq (by omega) (by omega)) ?_
    refine Settles.of_ok (subInt64_eq (by omega) (by omega)) ?_
    exact Settles.of_ok (quoInt64_eq (inInt64_iff.mpr (by omega)) (by decide)) (settles_ok _)
  · simp (disch := omega) only [addInt64_eq, subInt64_eq, mulInt64_eq, ok_bind]
    refine (settles_mulQuoInt64 scale _ (by omega)).bind fun hexits => ?_
    have hWed := mul_tdiv_range hexits (k := 3) (by decide) hpos.2.2.2
    refine ((settles_mulQuoInt64 scale _ (by omega)).bind (Q := True) fun hguards => ?_).iff
      (and_iff_left trivial)
    have hWgg := mul_tdiv_range hguards (k := 2) (by decide) hpos.1
    refine Settles.of_ok (subInt64_eq (by omega) (by omega)) ?_
    refine Settles.of_ok (subInt64_eq (by omega) (by omega)) ?_
    exact Settles.of_ok (quoInt64_eq (inInt64_iff.mpr (by omega)) (by decide)) (settles_ok _)

omit ht in
theorem weightsCase3b_addable (hfits : t.Case3bFits scale) : (weightsCase3b scale t).Addable := by
  unfold BwTotals.Case3bFits at hfits
  unfold weightsCase3b
  split_ifs at hfits ⊢ with hGE
  · have hWgd := mul_tdiv_range hfits.1 (k := 3) (by decide) hpos.2.2.2
    have hhalf := tdiv_error
      (a := scale - (scale * (t.D - 2 * t.G + t.E + t.M)).tdiv (3 * t.D)) (b := 2) (by decide)
    refine ⟨?_, ?_, ?_, ?_⟩
    all_goals
      dsimp only
      rw [abs_le]
      omega
  · have hWed := mul_tdiv_range hfits.1 (k := 3) (by decide) hpos.2.2.2
    have hhalf := tdiv_error
      (a := scale - (scale * (t.D - 2 * t.E + t.G + t.M)).tdiv (3 * t.D)) (b := 2) (by decide)
    refine ⟨?_, ?_, ?_, ?_⟩
    all_goals
      dsimp only
      rw [abs_le]
      omega

theorem ifBalanced64_settles {w : BwWeights} (hw : w.Addable) :
    Settles (ifBalanced64 scale t w : Except (Fault ε) (Option BwWeights)) (w.SumsFit scale t)
      (ifBalanced scale t w) :=
  (networkstatusCheckWeights64_settles hscale hpos ht hw).pure _

/-- Two attempts, where the second follows a check that fails. -/
theorem weightsCase2bInt64_settles :
    Settles (weightsCase2bInt64 scale t : Except (Fault ε) (Option BwWeights)) (t.Case2bFits scale)
      (weightsCase2b scale t) := by
  unfold weightsCase2bInt64 weightsCase2b BwTotals.Case2bFits
  refine (weightsCase2b1Int64_settles hscale hpos ht).bind fun hfirst => ?_
  refine (networkstatusCheckWeights64_settles hscale hpos ht
    (weightsCase2b1_addable hscale hpos hfirst)).bind fun _ => ?_
  by_cases hberr : networkstatusCheckWeights (weightsCase2b1 scale t) scale t 10 = .noError
  · rw [if_pos hberr, if_pos hberr]
    exact (settles_ok _).iff (iff_of_true trivial fun hne => absurd hberr hne)
  · rw [if_neg hberr, if_neg hberr]
    exact ((weightsCase2b2Int64_settles hscale hpos ht).bind fun hsecond =>
      (networkstatusCheckWeights64_settles hscale hpos ht
        (weightsCase2b2_addable hscale hpos hsecond)).pure _).iff ⟨fun h _ => h, fun h => h hberr⟩

omit hpos in
/-- **The weights** are computed exactly when the products of their case fit. -/
theorem bwWeightsV10Int64_settles :
    Settles (bwWeightsV10Int64 scale t : Except (Fault ε) (Option BwWeights)) (t.Fits scale)
      (bwWeightsV10 scale t) := by
  have hbounds := ht
  obtain ⟨hG, hM, hE, hD, hT, -, -⟩ := hbounds
  rw [abs_le] at hG hM hE hD hT
  unfold bwWeightsV10Int64 bwWeightsV10 BwTotals.Fits
  refine Settles.ite (fun _ => settles_ok _) fun hfull => ?_
  have hpos : 0 < t.G ∧ 0 < t.M ∧ 0 < t.E ∧ 0 < t.D := by omega
  simp (disch := omega) only [addInt64_eq, mulInt64_eq, ok_bind]
  refine Settles.ite (fun _ => ?_) fun _ => Settles.ite (fun _ => Settles.ite (fun _ => ?_)
    fun _ => ?_) fun _ => Settles.ite (fun _ => ?_) fun _ => ?_
  · exact (weightsCase1Int64_settles hscale hpos ht).bind fun _ =>
      ifBalanced64_settles hscale hpos ht (weightsCase1_addable hscale)
  · exact settles_ok _
  · exact weightsCase2bInt64_settles hscale hpos ht
  · exact (weightsCase3aInt64_settles hscale hpos ht).pure some
  · exact (weightsCase3bInt64_settles hscale hpos ht).bind fun hfits =>
      ifBalanced64_settles hscale hpos ht (weightsCase3b_addable hscale hpos hfits)

omit hpos in
/-- The line as well; the assertion holds for the scales of a vote. -/
theorem networkstatusComputeBwWeights64_settles :
    Settles (networkstatusComputeBwWeights64 scale t) (t.Fits scale)
      ((bwWeightsV10 scale t).map fun w => bandwidthWeightsLine w scale) := by
  refine ((bwWeightsV10Int64_settles hscale ht).bind (Q := True) fun _ => ?_).iff
    (and_iff_left trivial)
  cases bwWeightsV10 scale t with
  | none => exact settles_ok _
  | some w =>
    have hassert : torAssert (0 < scale ∧ scale ≤ 2147483647)
        (Fault.assertion WeightScaleFailure.weightScale) = .ok () :=
      torAssert_eq_ok.mpr (by omega)
    exact Settles.of_ok hassert (settles_ok _)

end Cases

/-! ## The largest scale -/

section Scale

variable {scale : ℤ} {t : BwTotals}

theorem product_fits {x : ℤ} (hscale : 1 ≤ scale ∧ scale ≤ 214748)
    (hx : -42949672960001 ≤ x ∧ x ≤ 42949672960001) : InInt 64 (scale * x) := by
  have habs : |scale * x| ≤ 214748 * 42949672960001 := by
    rw [abs_mul]
    refine mul_le_mul ?_ (abs_le.mpr hx) (abs_nonneg x) (by decide)
    rw [abs_le]
    omega
  rw [abs_le] at habs
  rw [inInt64_iff]
  omega

/-- Weights in range are no more than the scale, and so are their sums with the totals. -/
theorem sumsFit_of_scale (hscale : 1 ≤ scale ∧ scale ≤ 214748)
    (hpos : 0 < t.G ∧ 0 < t.M ∧ 0 < t.E ∧ 0 < t.D) (ht : t.After 10000) (w : BwWeights) :
    w.SumsFit scale t := by
  intro hsane
  obtain ⟨hG, hM, hE, hD⟩ := hpos
  have hkinds := ht.kinds
  unfold BwTotals.kinds at hkinds
  have hrange := hsane.range
  simp only [BwWeights.all, List.forall_mem_cons, List.not_mem_nil, false_implies, implies_true,
    and_true] at hrange
  obtain ⟨hWgg, hWgd, hWmg, hWme, hWmd, hWed, hWee⟩ := hrange
  have hgg := mul_le_mul_of_nonneg_right hWgg.2 hG.le
  have hgd := mul_le_mul_of_nonneg_right hWgd.2 hD.le
  have hee := mul_le_mul_of_nonneg_right hWee.2 hE.le
  have hed := mul_le_mul_of_nonneg_right hWed.2 hD.le
  have hmd := mul_le_mul_of_nonneg_right hWmd.2 hD.le
  have hme := mul_le_mul_of_nonneg_right hWme.2 hE.le
  have hmg := mul_le_mul_of_nonneg_right hWmg.2 hG.le
  have hall : scale * (t.G + t.M + t.E + t.D) ≤ 214748 * 21474836470004 :=
    mul_le_mul hscale.2 (by omega) (by omega) (by decide)
  have hsG := mul_pos (show 0 < scale by omega) hG
  have hsM := mul_pos (show 0 < scale by omega) hM
  have hsE := mul_pos (show 0 < scale by omega) hE
  have hsD := mul_pos (show 0 < scale by omega) hD
  refine ⟨?_, ?_, fun _ => ?_⟩
  · linarith
  · linarith
  · linarith

/-- Up to the scale 214748 everything fits. -/
theorem fits_of_scale (hscale : 1 ≤ scale ∧ scale ≤ 214748) (ht : t.After 10000) :
    t.Fits scale := by
  unfold BwTotals.Fits
  split_ifs with hempty hplenty hscarce hone hone'
  all_goals
    have hpos : 0 < t.G ∧ 0 < t.M ∧ 0 < t.E ∧ 0 < t.D := by omega
    have hsums := sumsFit_of_scale hscale hpos ht
    have hkinds := ht.kinds
    have hbound := ht.scarce
    unfold BwTotals.kinds at hkinds
  · exact ⟨⟨product_fits hscale (by omega), product_fits hscale (by omega)⟩, hsums _⟩
  · -- the guards are scarce, so four times their bandwidth is less than it and the total
    exact ⟨⟨product_fits hscale (by omega), product_fits hscale (by omega),
      product_fits hscale (by omega)⟩, hsums _, fun _ => ⟨⟨product_fits hscale (by omega),
        product_fits hscale (by omega)⟩, hsums _⟩⟩
  · unfold BwTotals.Case3aFits
    split_ifs
    · exact fun _ => product_fits hscale (by omega)
    · exact fun _ => product_fits hscale (by omega)
  · refine ⟨?_, hsums _⟩
    unfold BwTotals.Case3bFits
    split_ifs
    · exact ⟨product_fits hscale (by omega), product_fits hscale (by omega)⟩
    · exact ⟨product_fits hscale (by omega), product_fits hscale (by omega)⟩

end Scale

/-! ## A network that is all middle -/

/-- A relay that is neither guard nor exit, as fast as an `int` can say. -/
def fastMiddle : BwRouter where
  hasBandwidth := true
  bandwidthKb := 2147483647
  hasGuardfraction := false
  guardfractionPercentage := 0
  isExit := false
  isGuard := false

theorem totals_fastMiddle (S : GuardfractionSplit) (n : ℕ) (t : BwTotals) :
    (List.replicate n fastMiddle).foldlM (updateTotalBandwidthWeights S) t
      = .ok { t with M := t.M + 2147483647 * n, T := t.T + 2147483647 * n } := by
  induction n generalizing t with
  | zero => simp; rfl
  | succ n ih =>
    have hint : toInt32 fastMiddle.bandwidthKb = 2147483647 :=
      BwRouter.Listed.toInt32 ⟨by decide, fun h => nomatch h⟩
    have hparts : bandwidthParts S fastMiddle = .ok (2147483647, 0) := by
      unfold bandwidthParts
      rw [hint]
      rfl
    have hstep : updateTotalBandwidthWeights S t fastMiddle
        = .ok { t with M := t.M + 2147483647, T := t.T + 2147483647 } := by
      unfold updateTotalBandwidthWeights
      rw [hparts]
      rfl
    rw [List.replicate_succ, List.foldlM_cons, hstep]
    have hrest := ih { t with M := t.M + 2147483647, T := t.T + 2147483647 }
    have hM : t.M + 2147483647 + 2147483647 * (n : ℤ) = t.M + 2147483647 * ((n + 1 : ℕ) : ℤ) := by
      push_cast
      ring
    have hT : t.T + 2147483647 + 2147483647 * (n : ℤ) = t.T + 2147483647 * ((n + 1 : ℕ) : ℤ) := by
      push_cast
      ring
    dsimp only at hrest
    rw [hM, hT] at hrest
    exact hrest

/-- 10000 of them. -/
def middleTotals : BwTotals :=
  { G := 1, M := 1 + 21474836470000, E := 1, D := 1, T := 4 + 21474836470000 }

theorem bandwidthTotals_fastMiddle (S : GuardfractionSplit) :
    bandwidthTotals S (List.replicate 10000 fastMiddle) = .ok middleTotals :=
  totals_fastMiddle S 10000 initialTotals

theorem not_fits_middleTotals {scale : ℤ} (hscale : 214749 ≤ scale) :
    ¬ middleTotals.Fits scale := by
  intro hfits
  unfold BwTotals.Fits at hfits
  rw [if_neg (by decide), if_neg (by decide), if_pos (by decide), if_neg (by decide)] at hfits
  obtain ⟨⟨-, hboth, -⟩, -⟩ := hfits
  rw [inInt64_iff] at hboth
  simp only [middleTotals] at hboth
  omega

/-! ## When the arithmetic is defined -/

/-- No operation on the bandwidths overflows, and no division is by zero. -/
def BwArithmeticDefined (S : GuardfractionSplit) (scale : ℤ) (routers : List BwRouter) : Prop :=
  Faultless (bandwidthTotals64 S routers)
    ∧ ∀ t, bandwidthTotals64 S routers = .ok t → Faultless (networkstatusComputeBwWeights64 scale t)

/-- For one network it is defined exactly when the products of its case fit. -/
theorem bwArithmeticDefined_iff_fits {S : GuardfractionSplit} (hS : S.Rounds) {scale : ℤ}
    (hscale : 1 ≤ scale ∧ scale ≤ 2147483647) {routers : List BwRouter}
    (hlength : routers.length ≤ 10000) :
    BwArithmeticDefined S scale routers
      ↔ ∀ t, bandwidthTotals S routers = .ok t → t.Fits scale := by
  obtain ⟨heq, hafter⟩ := bandwidthTotals64_eq hS hlength
  unfold BwArithmeticDefined
  rw [heq]
  cases htotals : bandwidthTotals S routers with
  | error e =>
    refine iff_of_true ⟨⟨(fun h => nomatch h), fun h => nomatch h⟩, fun t ht => nomatch ht⟩ ?_
    exact fun t ht => nomatch ht
  | ok t =>
    have hiff := (networkstatusComputeBwWeights64_settles hscale (hafter t htotals)).faultless_iff
    constructor
    · intro ⟨_, hall⟩ t' ht'
      cases ht'
      exact hiff.mp (hall t rfl)
    · intro hall
      refine ⟨⟨(fun h => nomatch h), fun h => nomatch h⟩, fun t' ht' => ?_⟩
      cases ht'
      exact hiff.mpr (hall t rfl)

theorem roundedSplit_rounds : roundedSplit.Rounds := by
  intro bandwidth percentage hpercentage
  have hle : (percentage : ℤ) ≤ 100 := by exact_mod_cast hpercentage
  have hpos : (0 : ℤ) ≤ percentage := Int.natCast_nonneg percentage
  unfold roundedSplit
  dsimp only
  rcases le_total 0 bandwidth with hb | hb
  · have hlo : 0 ≤ bandwidth * percentage := mul_nonneg hb hpos
    have hhi : bandwidth * percentage ≤ bandwidth * 100 := mul_le_mul_of_nonneg_left hle hb
    omega
  · have hlo : bandwidth * 100 ≤ bandwidth * percentage := mul_le_mul_of_nonpos_left hle hb
    have hhi : bandwidth * percentage ≤ 0 := mul_nonpos_of_nonpos_of_nonneg hb hpos
    omega

/-- Every network that the votes can list, with each rounding of the guard fractions. -/
def BwScaleSafe (scale : ℤ) : Prop :=
  ∀ (S : GuardfractionSplit) (routers : List BwRouter), S.Rounds → routers.length ≤ 10000 →
    (∀ rs ∈ routers, rs.bandwidthKb < 2 ^ 32) → BwArithmeticDefined S scale routers

/-- The votes can set the scale so high that a product overflows. -/
theorem bw_scale_unsafe {scale : ℤ} (hscale : 214749 ≤ scale ∧ scale ≤ 2147483647) :
    ¬ BwScaleSafe scale := by
  intro hsafe
  have hdefined := hsafe roundedSplit (List.replicate 10000 fastMiddle) roundedSplit_rounds
    (by rw [List.length_replicate]) fun rs hrs => by
      rw [List.eq_of_mem_replicate hrs]
      decide
  rw [bwArithmeticDefined_iff_fits roundedSplit_rounds (by omega)
    (by rw [List.length_replicate])] at hdefined
  exact not_fits_middleTotals hscale.1 (hdefined _ (bandwidthTotals_fastMiddle roundedSplit))

/-- **When bandwidth arithmetic does not overflow.** For all networks of no more than 10000 routers
that is up to the scale 214748; for one network, when the products of its case fit. -/
theorem bw_arithmetic_defined_iff {scale : ℤ} (hscale : 1 ≤ scale ∧ scale ≤ 2147483647) :
    (BwScaleSafe scale ↔ scale ≤ 214748)
      ∧ ∀ (S : GuardfractionSplit) (routers : List BwRouter), S.Rounds →
        routers.length ≤ 10000 →
          (BwArithmeticDefined S scale routers
            ↔ ∀ t, bandwidthTotals S routers = .ok t → t.Fits scale) := by
  refine ⟨⟨fun hsafe => ?_, fun hle => ?_⟩, fun S routers hS hlength =>
    bwArithmeticDefined_iff_fits hS hscale hlength⟩
  · by_contra hlarge
    exact bw_scale_unsafe ⟨by omega, hscale.2⟩ hsafe
  · intro S routers hS hlength _
    refine (bwArithmeticDefined_iff_fits hS hscale hlength).mpr fun t ht => ?_
    exact fits_of_scale ⟨hscale.1, hle⟩ ((bandwidthTotals64_eq hS hlength).2 t ht)

/-- The scale that the code assumes. -/
theorem bw_arithmetic_defined_default : BwScaleSafe 10000 :=
  (bw_arithmetic_defined_iff (by decide)).1.mpr (by decide)

/-- **Not every scale is safe**: with the largest, 10000 fast relays in the middle overflow. -/
theorem bw_scale_max_overflows :
    ¬ ∀ scale : ℤ, 1 ≤ scale → scale ≤ 2147483647 → BwScaleSafe scale :=
  fun hall => bw_scale_unsafe ⟨by decide, by decide⟩ (hall 2147483647 (by decide) (by decide))

end Dittor.Tor

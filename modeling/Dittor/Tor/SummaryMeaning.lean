import Mathlib
import Dittor.Lib.Tiling
import Dittor.Tor.PolicyMatch
import Dittor.Tor.PolicySummary

/-!
# What the items of a summary say of a port (`policies.c`)

Apart from the items, a port has a count of rejected addresses and a verdict of its own, and each
rule that covers it changes one of these (`portStep`). However the rules overlap, the items show
this for every port behind each rule (`policySummaryItems_shows`).

The count is the saturating sum of the networks that were rejected so far, so a port is accepted
exactly if a counted `accept` covers it while this sum is at most the cutoff
(`portState_accepted_iff`).
-/

namespace Dittor.Tor

open Dittor.Lib

/-! ## A port on its own -/

/-- What an item says of its ports. -/
structure PortState where
  rejectCount : ℕ
  accepted : Bool
deriving DecidableEq, Repr

def SummaryItem.state (item : SummaryItem) : PortState := ⟨item.rejectCount, item.accepted⟩

/-- What a rejected network counts: its addresses, or the parts of it of the size of the scale.
One that is smaller than this counts nothing. -/
def countedSize (family : Family) (maskbits : ℕ) : ℕ :=
  if addrBits family - rejectCutoffScale family < maskbits then 0
  else rejectionCount family maskbits

/-- A rule that the summary for the family counts for the port. -/
def AddrPolicy.CountedFor (p : AddrPolicy) (family : Family) (port : ℕ) : Prop :=
  p.addr.family = family ∧ p.Counted ∧ p.coversPort port = true

instance (p : AddrPolicy) (family : Family) (port : ℕ) : Decidable (p.CountedFor family port) :=
  inferInstanceAs (Decidable (_ ∧ _ ∧ _))

/-- One rule. -/
def portStep (family : Family) (port : ℕ) (s : PortState) (p : AddrPolicy) : PortState :=
  if p.CountedFor family port then
    match p.policyType with
    | .accept => { s with accepted := s.accepted || s.rejectCount ≤ rejectCutoffCount family }
    | .reject =>
      { s with rejectCount := min (s.rejectCount + countedSize family p.maskbits) uint64Max }
  else s

/-- The port behind a policy. -/
def portState (family : Family) (policy : List AddrPolicy) (port : ℕ) : PortState :=
  policy.foldl (portStep family port) ⟨0, false⟩

/-! ## The items show it -/

/-- The items say this of the ports. -/
abbrev ShowsPorts (v : ℕ → PortState) (summary : List SummaryItem) : Prop :=
  Shows SummaryItem.prtMin SummaryItem.prtMax SummaryItem.state v summary

section Step

variable {family : Family} {n lo hi maskbits : ℕ} {summary items front mid post : List SummaryItem}
variable {p : AddrPolicy} {v : ℕ → PortState}

theorem PartsOf.shows (h : PartsOf summary items) (hv : ShowsPorts v summary) :
    ShowsPorts v items := by
  intro item hitem port hlo hhi
  obtain ⟨old, hold, hpart⟩ := h item hitem
  rw [← hv old hold port (hpart.first.trans hlo) (hhi.trans hpart.last), SummaryItem.state,
    hpart.count, hpart.verdict]
  rfl

/-- What a change of the items between two boundaries does. -/
theorem CutAt.shows (h : CutAt summary lo hi front mid post) (hv : ShowsPorts v summary)
    {f : SummaryItem → SummaryItem} {g : PortState → PortState}
    (hmin : ∀ item, (f item).prtMin = item.prtMin) (hmax : ∀ item, (f item).prtMax = item.prtMax)
    (hstate : ∀ item ∈ mid, (f item).state = g item.state) :
    ShowsPorts (fun port => if lo ≤ port ∧ port ≤ hi then g (v port) else v port)
      (front ++ (mid.map f ++ post)) := by
  have hall := h.parts.shows hv
  simpa only [Nat.lt_succ_iff] using
    hall.change h.before h.inside h.behind hmin hmax hstate

theorem countedSize_le : countedSize family maskbits ≤ uint64Max := by
  unfold countedSize
  split
  · exact Nat.zero_le _
  · unfold rejectionCount
    split
    next => exact le_rfl
    next hsmall =>
      have hpow := Nat.pow_lt_pow_right (a := 2) (by decide) (not_le.mp hsmall)
      have hmax : uint64Max = 2 ^ 64 - 1 := rfl
      omega

theorem countItem_state {item : SummaryItem} (h : item.rejectCount ≤ uint64Max) :
    (countItem family maskbits item).state
      = { item.state with
          rejectCount := min (item.state.rejectCount + countedSize family maskbits) uint64Max } := by
  have hsize := @countedSize_le family maskbits
  unfold countItem
  unfold countedSize at hsize ⊢
  by_cases hsmall : addrBits family - rejectCutoffScale family < maskbits
  · rw [if_pos hsmall, if_pos hsmall, Nat.add_zero]
    show item.state = _
    rw [min_eq_left (show item.state.rejectCount ≤ uint64Max from h)]
  · rw [if_neg hsmall] at hsize ⊢
    rw [if_neg hsmall]
    unfold rejectItem SummaryItem.state
    dsimp only
    congr 1
    split <;> omega

/-- A count is that of some port. -/
theorem ShowsPorts.count_le (hv : ShowsPorts v summary) (h : Covers lo hi summary)
    (hbound : ∀ port, (v port).rejectCount ≤ uint64Max) :
    ∀ item ∈ summary, item.rejectCount ≤ uint64Max := by
  intro item hitem
  have hport := hv item hitem item.prtMin le_rfl (h.first_le hitem).2
  have hcount := hbound item.prtMin
  rw [← hport] at hcount
  exact hcount

/-- **One rule** does to the items what it does to each port on its own. -/
theorem summaryStep_shows (h : InSummary family n summary) (hn : n < intMax)
    (hfamily : family ≠ .unspec) (hgood : p.addr.family = family → p.Counted → p.InRange family)
    (hv : ShowsPorts v summary) (hbound : ∀ port, (v port).rejectCount ≤ uint64Max) :
    ∃ summary', summaryStep family summary p = .ok summary' ∧ InSummary family (n + 1) summary'
      ∧ ShowsPorts (fun port => portStep family port (v port) p) summary' := by
  obtain ⟨summary', hok, hin⟩ := summaryStep_ok h hn hfamily hgood
  refine ⟨summary', hok, hin, ?_⟩
  by_cases hsame : p.addr.family = family ∧ p.Counted
  · obtain ⟨hlo, hle, hhi, hmask⟩ := hgood hsame.1 hsame.2
    rw [summaryStep, if_neg (not_not.mpr hsame.1), addItem_counted hsame.2, hsame.1] at hok
    have hcovered : ∀ port, p.CountedFor family port ↔ p.prtMin ≤ port ∧ port ≤ p.prtMax := by
      intro port
      simp [AddrPolicy.CountedFor, AddrPolicy.coversPort, hsame]
    cases htype : p.policyType with
    | accept =>
      rw [htype] at hok
      obtain ⟨front, mid, post, hcut, heq⟩ := accept_eq family h.covers hlo hle hhi
      obtain rfl := Except.ok.inj (heq.symm.trans hok)
      have hshows := hcut.shows hv (fun _ => rfl) (fun _ => rfl)
        (f := acceptItem family) (g := fun s => { s with
          accepted := s.accepted || s.rejectCount ≤ rejectCutoffCount family }) fun _ _ => rfl
      simpa only [portStep, hcovered, htype] using hshows
    | reject =>
      rw [htype] at hok
      obtain ⟨front, mid, post, hcut, heq⟩ := reject_eq h hn hfamily hlo hle hhi hmask
      obtain rfl := Except.ok.inj (heq.symm.trans hok)
      have hcounts : ∀ item ∈ mid, item.rejectCount ≤ uint64Max := by
        have hmid := (shows_append.mp (shows_append.mp (hcut.parts.shows hv)).2).1
        exact ShowsPorts.count_le hmid hcut.inside hbound
      have hshows := hcut.shows hv (fun item => (countItem_ports p.maskbits item).1)
        (fun item => (countItem_ports p.maskbits item).2.1)
        (g := fun s => { s with
          rejectCount := min (s.rejectCount + countedSize family p.maskbits) uint64Max })
        fun item hitem => countItem_state (hcounts item hitem)
      simpa only [portStep, hcovered, htype] using hshows
  · -- the rule is for no port
    have hnone : ∀ port, portStep family port (v port) p = v port := fun port =>
      if_neg fun hfor => hsame ⟨hfor.1, hfor.2.1⟩
    have hkept : summaryStep family summary p = .ok summary := by
      unfold summaryStep
      split
      next => rfl
      next hfam => exact addItem_ignored fun hcounted => hsame ⟨not_not.mp hfam, hcounted⟩
    obtain rfl := Except.ok.inj (hkept.symm.trans hok)
    simpa only [hnone] using hv

end Step

/-! ## A whole policy -/

section Run

variable {family : Family} {policy : List AddrPolicy} {port : ℕ}

theorem portStep_count_le {s : PortState} {p : AddrPolicy} (h : s.rejectCount ≤ uint64Max) :
    (portStep family port s p).rejectCount ≤ uint64Max := by
  unfold portStep
  split
  · split
    · exact h
    · exact min_le_right _ _
  · exact h

/-- A run does to the items what it does to each port. -/
theorem run_shows (hfamily : family ≠ .unspec)
    (hgood : ∀ p ∈ policy, p.addr.family = family → p.Counted → p.InRange family) :
    ∀ {n : ℕ} {summary : List SummaryItem} {v : ℕ → PortState}, InSummary family n summary →
    n + policy.length ≤ intMax → ShowsPorts v summary →
    (∀ port, (v port).rejectCount ≤ uint64Max) →
    ∃ summary', policy.foldlM (summaryStep family) summary = .ok summary'
      ∧ InSummary family (n + policy.length) summary'
      ∧ ShowsPorts (fun port => policy.foldl (portStep family port) (v port)) summary' := by
  induction policy with
  | nil => exact fun h _ hv _ => ⟨_, rfl, h, hv⟩
  | cons p policy ih =>
    intro n summary v h hlen hv hbound
    rw [List.length_cons] at hlen ⊢
    obtain ⟨next, hstep, hnext, hshown⟩ :=
      summaryStep_shows h (by omega) hfamily (hgood p List.mem_cons_self) hv hbound
    obtain ⟨summary', hrun, hin, hall⟩ :=
      ih (fun q hq => hgood q (List.mem_cons_of_mem _ hq)) hnext (by omega) hshown
        fun port => portStep_count_le (hbound port)
    refine ⟨summary', ?_, ?_, hall⟩
    · rw [List.foldlM_cons, hstep]
      exact hrun
    · rw [show n + (policy.length + 1) = n + 1 + policy.length by omega]
      exact hin

/-- **The items show each port on its own**, behind the whole policy. -/
theorem policySummaryItems_shows (hfamily : family ≠ .unspec)
    (hgood : ∀ p ∈ policy, p.addr.family = family → p.Counted → p.InRange family)
    (hlen : policy.length ≤ intMax) :
    ∃ summary, policySummaryItems policy family = .ok summary ∧ Covers 1 65536 summary
      ∧ ShowsPorts (portState family policy) summary := by
  have hstart : ShowsPorts (fun _ => ⟨0, false⟩) policySummaryCreate := by
    intro item hitem port _ _
    rw [List.mem_singleton.mp hitem]
    rfl
  obtain ⟨summary, hrun, hin, hshows⟩ := run_shows hfamily hgood inSummary_create (by omega) hstart
    fun _ => Nat.zero_le _
  exact ⟨summary, hrun, hin.covers, hshows⟩

/-! ## When a port is accepted -/

/-- The saturating sum of what the rejected networks count. -/
def rejectedSize (family : Family) (port : ℕ) (policy : List AddrPolicy) : ℕ :=
  min uint64Max ((policy.filter fun p => p.policyType = .reject ∧ p.CountedFor family port).map
    fun p => countedSize family p.maskbits).sum

theorem foldl_count {s : PortState} (h : s.rejectCount ≤ uint64Max) :
    (policy.foldl (portStep family port) s).rejectCount
      = min uint64Max (s.rejectCount
        + ((policy.filter fun p => p.policyType = .reject ∧ p.CountedFor family port).map
          fun p => countedSize family p.maskbits).sum) := by
  induction policy generalizing s with
  | nil => simpa using h
  | cons p policy ih =>
    rw [List.foldl_cons, ih (portStep_count_le h)]
    unfold portStep
    by_cases hfor : p.CountedFor family port
    · cases htype : p.policyType with
      | accept => simp [hfor, htype]
      | reject =>
        simp only [hfor, htype, List.filter_cons, if_true, and_self, decide_true, List.map_cons,
          List.sum_cons]
        omega
    · simp [hfor]

theorem portState_count : (portState family policy port).rejectCount = rejectedSize family port policy := by
  rw [portState, foldl_count (Nat.zero_le _), Nat.zero_add]
  rfl

theorem foldl_accepted {s : PortState} :
    (policy.foldl (portStep family port) s).accepted = true ↔
      s.accepted = true ∨ ∃ front p behind, policy = front ++ p :: behind ∧ p.policyType = .accept
        ∧ p.CountedFor family port
        ∧ (front.foldl (portStep family port) s).rejectCount ≤ rejectCutoffCount family := by
  induction policy generalizing s with
  | nil => simp
  | cons p policy ih =>
    rw [List.foldl_cons, ih]
    constructor
    · rintro (hnow | ⟨front, q, behind, rfl, hrest⟩)
      · by_cases hfor : p.CountedFor family port ∧ p.policyType = .accept
        · rw [portStep, if_pos hfor.1, hfor.2, Bool.or_eq_true, decide_eq_true_iff] at hnow
          exact hnow.imp_right fun hcount => ⟨[], p, policy, rfl, hfor.2, hfor.1, hcount⟩
        · -- the rule leaves the verdict
          refine .inl ?_
          unfold portStep at hnow
          split at hnow
          next hcounted =>
            cases htype : p.policyType with
            | accept => exact absurd ⟨hcounted, htype⟩ hfor
            | reject =>
              rw [htype] at hnow
              exact hnow
          next => exact hnow
      · exact .inr ⟨p :: front, q, behind, rfl, hrest⟩
    · rintro (hnow | ⟨front, q, behind, hsplit, htype, hfor, hcount⟩)
      · refine .inl ?_
        unfold portStep
        split
        · split
          · simp [hnow]
          · exact hnow
        · exact hnow
      · cases front with
        | nil =>
          obtain ⟨rfl, rfl⟩ := List.cons.inj hsplit
          refine .inl ?_
          rw [portStep, if_pos hfor, htype]
          simp [show s.rejectCount ≤ rejectCutoffCount family from hcount]
        | cons r front =>
          obtain ⟨rfl, rfl⟩ := List.cons.inj hsplit
          exact .inr ⟨front, q, behind, rfl, htype, hfor, hcount⟩

/-- **When a port is accepted**: a counted `accept` covers it, and not too much was rejected before. -/
theorem portState_accepted_iff :
    (portState family policy port).accepted = true ↔
      ∃ front p behind, policy = front ++ p :: behind ∧ p.policyType = .accept
        ∧ p.CountedFor family port ∧ rejectedSize family port front ≤ rejectCutoffCount family := by
  rw [portState, foldl_accepted]
  simp only [Bool.false_eq_true, false_or, ← portState_count]
  rfl

end Run

end Dittor.Tor

import Mathlib
import Dittor.Lib.NetMask
import Dittor.Tor.ShortPolicy

/-!
# A summary means what the policy says (`policies.c`)

The summary prints the items of one verdict, neighbours merged (`mergedRanges`). The merged ranges
are a tiling of the ports as well and show the same verdicts, so a short policy that is read back
accepts a port exactly if its item does (`parses_text`). If both texts are too long, the first of
the accepted ranges are left.

For IPv4 the items count each address that is rejected. Behind the `accept` that decides no rule
rejects an address any more, and the networks of the rules in front of it are counted unless they
are private ones: so a port that is accepted is rejected for few addresses (`card_rejected_le`).
-/

namespace Dittor.Tor

open Dittor.Lib

/-! ## Merged ranges -/

/-- The ranges of the summary, with their verdicts. -/
def mergedRanges : ℕ → List SummaryItem → List (Bool × ShortPolicyEntry)
  | _, [] => []
  | start, [item] => [(item.accepted, ⟨start, item.prtMax⟩)]
  | start, item :: next :: items =>
    if item.accepted ≠ next.accepted then
      (item.accepted, ⟨start, item.prtMax⟩) :: mergedRanges next.prtMin (next :: items)
    else mergedRanges start (next :: items)

/-- The merged ranges of one verdict. -/
def rangesOf (accepted : Bool) (ranges : List (Bool × ShortPolicyEntry)) : List ShortPolicyEntry :=
  (ranges.filter fun r => r.1 = accepted).map Prod.snd

/-- The ranges are a tiling with these verdicts. -/
structure RangesShow (v : ℕ → Bool) (start : ℕ) (ranges : List (Bool × ShortPolicyEntry)) : Prop where
  tiles : Tiles (fun r => r.2.minPort) (fun r => r.2.maxPort) start 65536 ranges
  shows : Shows (fun r => r.2.minPort) (fun r => r.2.maxPort) Prod.fst v ranges

section Ranges

variable {start lo port : ℕ} {items : List SummaryItem} {v : ℕ → Bool} {accepted : Bool}
variable {ranges : List (Bool × ShortPolicyEntry)}

theorem summaryRanges_eq :
    summaryRanges start items = (mergedRanges start items).map fun r => (r.1, r.2.text) := by
  induction items generalizing start with
  | nil => rfl
  | cons item items ih =>
    cases items with
    | nil => rfl
    | cons next items =>
      rw [summaryRanges, mergedRanges]
      split
      · rw [List.map_cons, ih]
        rfl
      · exact ih

/-- **Merging keeps the verdicts.** The ports from `start` on have the verdict of the first item. -/
theorem mergedRanges_show (hne : items ≠ []) (h : Covers lo 65536 items) (hstart : start ≤ lo)
    (hv : Shows SummaryItem.prtMin SummaryItem.prtMax SummaryItem.accepted v items)
    (hopen : ∀ item ∈ items.head?, ∀ p, start ≤ p → p < lo → item.accepted = v p) :
    RangesShow v start (mergedRanges start items) := by
  induction items generalizing start lo with
  | nil => exact absurd rfl hne
  | cons item items ih =>
    obtain ⟨hfirst, hlast, htail⟩ := h
    obtain ⟨hitem, hitems⟩ := shows_cons.mp hv
    -- up to its end the open range has the verdict of the item
    have hrange : ∀ p, start ≤ p → p ≤ item.prtMax → item.accepted = v p := by
      intro p hle hmax
      rcases lt_or_ge p lo with hlt | hge
      · exact hopen item rfl p hle hlt
      · exact hitem p (hfirst.trans_le hge) hmax
    cases items with
    | nil =>
      have hend : Shows (fun r => r.2.minPort) (fun r => r.2.maxPort) Prod.fst v
          ([] : List (Bool × ShortPolicyEntry)) := fun r hr => absurd hr List.not_mem_nil
      exact ⟨⟨rfl, hstart.trans hlast, htail⟩, shows_cons.mpr ⟨hrange, hend⟩⟩
    | cons next items =>
      have hnext : next.prtMin = item.prtMax + 1 := htail.1
      rw [mergedRanges]
      split
      next =>
        obtain ⟨htiles, hshows⟩ := ih (List.cons_ne_nil _ _) htail hnext.le hitems
          fun item' hitem' p hle hlt => by omega
        rw [hnext] at htiles hshows ⊢
        exact ⟨⟨rfl, hstart.trans hlast, htiles⟩, shows_cons.mpr ⟨hrange, hshows⟩⟩
      next hsame =>
        refine ih (List.cons_ne_nil _ _) htail (by omega) hitems fun item' hitem' p hle hlt => ?_
        obtain rfl := Option.some.inj hitem'
        rw [← not_not.mp hsame]
        exact hrange p hle (Nat.lt_succ_iff.mp hlt)

/-- A port is in a range of its verdict. -/
theorem RangesShow.mem_iff (h : RangesShow v start ranges) (hlo : start ≤ port) (hhi : port < 65536) :
    (∃ e ∈ rangesOf accepted ranges, e.minPort ≤ port ∧ port ≤ e.maxPort) ↔ v port = accepted := by
  unfold rangesOf
  constructor
  · rintro ⟨e, he, hmin, hmax⟩
    obtain ⟨r, hr, rfl⟩ := List.mem_map.mp he
    obtain ⟨hmem, hverdict⟩ := List.mem_filter.mp hr
    rw [← h.shows r hmem port hmin hmax]
    exact of_decide_eq_true hverdict
  · intro hverdict
    obtain ⟨r, hr, hmin, hmax⟩ := h.tiles.exists_mem hlo hhi
    have hshown := h.shows r hr port hmin hmax
    refine ⟨r.2, List.mem_map.mpr ⟨r, List.mem_filter.mpr ⟨hr, ?_⟩, rfl⟩, hmin, hmax⟩
    exact decide_eq_true (hshown.trans hverdict)

/-- All ranges are ranges of ports. -/
theorem RangesShow.inRange (h : RangesShow v 1 ranges) : ∀ e ∈ rangesOf accepted ranges, e.InRange := by
  intro e he
  obtain ⟨r, hr, rfl⟩ := List.mem_map.mp he
  have hmem := (List.mem_filter.mp hr).1
  have hfirst := h.tiles.first_le hmem
  have hlast := h.tiles.last_lt hmem
  exact ⟨hfirst.1, hfirst.2, by omega⟩

theorem rangesText_eq :
    rangesText accepted (summaryRanges start items)
      = [byte ','].intercalate
        ((rangesOf accepted (mergedRanges start items)).map ShortPolicyEntry.text) := by
  rw [rangesText, summaryRanges_eq, rangesOf, List.filter_map, List.map_map, List.map_map]
  rfl

theorem rangesOf_eq_nil_iff :
    ((summaryRanges start items).filter fun r => r.1 = accepted) = []
      ↔ rangesOf accepted (mergedRanges start items) = [] := by
  rw [summaryRanges_eq, rangesOf, List.filter_map, List.map_eq_nil_iff, List.map_eq_nil_iff]
  rfl

end Ranges

/-! ## The text is read back -/

/-- Both texts are too long, so the summary is cut. -/
def TooLong (ranges : List (Bool × Bytes)) : Prop :=
  maxSummaryText < (rangesText false ranges).length ∧ maxSummaryText < (rangesText true ranges).length

section Text

variable {items : List SummaryItem} {v : ℕ → Bool} {accepted : Bool} {entries : List ShortPolicyEntry}

theorem hasPort_iff {port : ℕ} :
    (ShortPolicy.mk accepted entries).hasPort port = true ↔
      ∃ e ∈ entries, e.minPort ≤ port ∧ port ≤ e.maxPort := by
  simp [ShortPolicy.hasPort]

/-- A list of all the ports of a verdict. -/
theorem accepts_eq {port : ℕ}
    (h : (ShortPolicy.mk accepted entries).hasPort port = true ↔ v port = accepted) :
    (ShortPolicy.mk accepted entries).accepts port = v port := by
  unfold ShortPolicy.accepts
  cases hport : (ShortPolicy.mk accepted entries).hasPort port with
  | true => exact (h.mp hport).symm
  | false =>
    have hne : v port ≠ accepted := fun heq => by
      rw [h.mpr heq] at hport
      cases hport
    cases accepted <;> simpa using hne.symm

theorem allPorts_text (accepted : Bool) :
    cstring (if accepted then "accept 1-65535" else "reject 1-65535")
      = cstring (if accepted then "accept " else "reject ")
        ++ [byte ','].intercalate ([⟨1, 65535⟩].map ShortPolicyEntry.text) := by
  cases accepted <;> decide

variable (accepted) in
/-- If all ports have one verdict, the text says so. -/
theorem parses_allPorts (h : RangesShow v 1 (mergedRanges 1 items))
    (hnone : rangesOf (!accepted) (mergedRanges 1 items) = []) :
    ∃ short, parseShortPolicy (cstring (if accepted then "accept 1-65535" else "reject 1-65535"))
        = some short
      ∧ ∀ port, 1 ≤ port → port ≤ 65535 → short.accepts port = v port := by
  refine ⟨⟨accepted, [⟨1, 65535⟩]⟩, ?_, fun port hlo hhi => accepts_eq ?_⟩
  · rw [allPorts_text]
    refine parseShortPolicy_join accepted ?_ (List.cons_ne_nil _ _) (by decide)
    intro e he
    rw [List.mem_singleton.mp he]
    exact ⟨le_rfl, by decide, le_rfl⟩
  · have hother : v port ≠ !accepted := by
      intro heq
      obtain ⟨e, he, -⟩ := (h.mem_iff hlo (by omega)).mpr heq
      rw [hnone] at he
      exact List.not_mem_nil he
    rw [hasPort_iff]
    refine ⟨fun _ => ?_, fun _ => ⟨_, List.mem_singleton_self _, hlo, hhi⟩⟩
    cases accepted <;> simpa using hother

variable (accepted) in
/-- The text of all ranges of a verdict. -/
theorem parses_ranges (h : RangesShow v 1 (mergedRanges 1 items))
    (hsome : rangesOf accepted (mergedRanges 1 items) ≠ [])
    (hshort : (rangesText accepted (summaryRanges 1 items)).length ≤ maxSummaryText) :
    ∃ short, parseShortPolicy (cstring (if accepted then "accept " else "reject ")
        ++ rangesText accepted (summaryRanges 1 items)) = some short
      ∧ ∀ port, 1 ≤ port → port ≤ 65535 → short.accepts port = v port := by
  rw [rangesText_eq] at hshort ⊢
  refine ⟨_, parseShortPolicy_join accepted h.inRange hsome hshort, fun port hlo hhi => ?_⟩
  exact accepts_eq (hasPort_iff.trans (h.mem_iff hlo (by omega)))

/-- A text that is cut. -/
theorem parses_cut (h : RangesShow v 1 (mergedRanges 1 items)) {out : Bytes}
    (hout : truncateSummary (rangesText true (summaryRanges 1 items)) = .ok out) :
    ∃ short, parseShortPolicy (cstring "accept " ++ out) = some short
      ∧ ∀ port, 1 ≤ port → port ≤ 65535 → short.accepts port = true → v port = true := by
  rw [rangesText_eq] at hout
  obtain ⟨k, hpos, hk, hlen, rfl⟩ := truncateSummary_join hout
  have hne : (rangesOf true (mergedRanges 1 items)).take k ≠ [] := by
    rw [Ne, List.take_eq_nil_iff]
    rintro (hzero | hnil)
    · omega
    · rw [hnil] at hk
      exact absurd hk (Nat.not_lt_zero k)
  refine ⟨_, parseShortPolicy_join true (fun e he => h.inRange e (List.mem_of_mem_take he)) hne hlen,
    fun port hlo hhi hacc => ?_⟩
  have hport : (ShortPolicy.mk true ((rangesOf true (mergedRanges 1 items)).take k)).hasPort port
      = true := by
    unfold ShortPolicy.accepts at hacc
    split at hacc
    next hport => exact hport
    next => cases hacc
  obtain ⟨e, he, hin⟩ := hasPort_iff.mp hport
  exact (h.mem_iff hlo (by omega)).mp ⟨e, List.mem_of_mem_take he, hin⟩

/-- **The text is read back** with the verdict of each port, or with fewer ports if it was cut. -/
theorem parses_text (h : RangesShow v 1 (mergedRanges 1 items)) (hcovers : Covers 1 65536 items) :
    ∃ text short, summaryText (summaryRanges 1 items) = .ok text
      ∧ parseShortPolicy text = some short
      ∧ (¬ TooLong (summaryRanges 1 items) →
        ∀ port, 1 ≤ port → port ≤ 65535 → short.accepts port = v port)
      ∧ ∀ port, 1 ≤ port → port ≤ 65535 → short.accepts port = true → v port = true := by
  obtain ⟨text, htext⟩ := summaryText_ok hcovers
  -- the two parts of the result for a text that is not cut
  have hwhole : (∃ short, parseShortPolicy text = some short
      ∧ ∀ port, 1 ≤ port → port ≤ 65535 → short.accepts port = v port) →
      ∃ text' short, summaryText (summaryRanges 1 items) = .ok text'
        ∧ parseShortPolicy text' = some short
        ∧ (¬ TooLong (summaryRanges 1 items) →
          ∀ port, 1 ≤ port → port ≤ 65535 → short.accepts port = v port)
        ∧ ∀ port, 1 ≤ port → port ≤ 65535 → short.accepts port = true → v port = true := by
    rintro ⟨short, hparse, hports⟩
    refine ⟨text, short, htext, hparse, fun _ => hports, fun port hlo hhi hacc => ?_⟩
    rw [← hports port hlo hhi]
    exact hacc
  have htext' := htext
  unfold summaryText at htext'
  dsimp only at htext'
  simp only [rangesOf_eq_nil_iff] at htext'
  split at htext'
  next hnone =>
    obtain rfl := Except.ok.inj htext'
    exact hwhole (parses_allPorts false h hnone)
  next hacc =>
    split at htext'
    next hnone =>
      obtain rfl := Except.ok.inj htext'
      exact hwhole (parses_allPorts true h hnone)
    next hrej =>
      split at htext'
      next hlong =>
        cases hout : truncateSummary (rangesText true (summaryRanges 1 items)) with
        | error e =>
          rw [hout] at htext'
          cases htext'
        | ok out =>
          rw [hout] at htext'
          obtain rfl := Except.ok.inj htext'
          obtain ⟨short, hparse, hports⟩ := parses_cut h hout
          exact ⟨_, short, htext, hparse, fun hshort => absurd hlong hshort, hports⟩
      next hlong =>
        split at htext'
        next hless =>
          obtain rfl := Except.ok.inj htext'
          exact hwhole (parses_ranges false h hrej (by omega))
        next hless =>
          obtain rfl := Except.ok.inj htext'
          exact hwhole (parses_ranges true h hacc (by omega))

end Text

/-! ## What a summary means -/

/-- The summary for the family is cut. -/
def SummaryTruncated (policy : List AddrPolicy) (family : Family) : Prop :=
  ∃ summary, policySummaryItems policy family = .ok summary ∧ TooLong (summaryRanges 1 summary)

/-- An `accept` for all addresses of the family covers the port before too many of them are
rejected. -/
def AcceptedInTime (policy : List AddrPolicy) (family : Family) (port : ℕ) : Prop :=
  ∃ front p behind, policy = front ++ p :: behind ∧ p.policyType = .accept ∧ p.addr.family = family
    ∧ p.maskbits = 0 ∧ p.coversPort port = true
    ∧ rejectedSize family port front ≤ rejectCutoffCount family

/-- An address in one of the private networks. -/
def inPrivateNet (addr : TorAddr) : Bool :=
  privateNets.any fun net =>
    (torAddrParseMask net).any fun r => torAddrCompareMasked addr r.1 r.2 = 0

/-- The addresses outside of them that the policy rejects for the port. -/
def rejectedAddresses (policy : List AddrPolicy) (port : ℕ) : Finset ℕ :=
  (Finset.range (2 ^ 32)).filter fun a =>
    inPrivateNet (.inet a) = false
      ∧ compareKnownTorAddrToAddrPolicy (.inet a) port policy = .rejected

section Meaning

variable {policy front behind : List AddrPolicy} {family : Family} {port a : ℕ} {p : AddrPolicy}

theorem portState_accepted_iff_inTime :
    (portState family policy port).accepted = true ↔ AcceptedInTime policy family port := by
  rw [portState_accepted_iff]
  unfold AcceptedInTime
  refine exists_congr fun front => exists_congr fun p => exists_congr fun behind =>
    and_congr_right fun _ => and_congr_right fun htype => ?_
  unfold AddrPolicy.CountedFor AddrPolicy.Counted
  rw [htype, and_assoc, and_assoc]

/-- A network of IPv4 has as many addresses as it counts. -/
theorem card_covered_le (hfamily : p.addr.family = .inet) (hmask : p.maskbits ≤ 32)
    {s : Finset ℕ} (hs : s ⊆ Finset.range (2 ^ 32)) :
    (s.filter fun a => p.coversAddr (.inet a) = true).card ≤ countedSize .inet p.maskbits := by
  have hsize : countedSize .inet p.maskbits = 2 ^ (32 - p.maskbits) := by
    unfold countedSize rejectionCount
    have hbits : addrBits .inet - rejectCutoffScale .inet = 32 := rfl
    rw [hbits, if_neg (by omega), if_neg (by omega)]
  obtain ⟨ip, haddr⟩ : ∃ ip, p.addr = .inet ip := by
    cases hp : p.addr with
    | inet ip => exact ⟨ip, rfl⟩
    | unspec => rw [hp] at hfamily; cases hfamily
    | inet6 words => rw [hp] at hfamily; cases hfamily
  rw [hsize]
  by_cases hzero : p.maskbits = 0
  · calc _ ≤ s.card := Finset.card_filter_le _ _
      _ ≤ (Finset.range (2 ^ 32)).card := Finset.card_le_card hs
      _ = 2 ^ (32 - p.maskbits) := by rw [Finset.card_range, hzero]
  · have hsame : (s.filter fun a => p.coversAddr (.inet a) = true)
        = s.filter fun a => a / 2 ^ (32 - p.maskbits) = ip / 2 ^ (32 - p.maskbits) := by
      refine Finset.filter_congr fun a _ => ?_
      rw [AddrPolicy.coversAddr, decide_eq_true_iff, haddr, torAddrCompareMasked, if_neg hzero,
        cmpNum_eq_zero, min_eq_left hmask, Nat.shiftRight_eq_div_pow, Nat.shiftRight_eq_div_pow]
    rw [hsame]
    exact card_block_le _ _ _

/-- What is rejected in front of an `accept` for all addresses is covered by a rejected network,
which is counted unless it is private. -/
theorem rejected_covered (hall : p.policyType = .accept ∧ p.addr.family = .inet ∧ p.maskbits = 0
      ∧ p.coversPort port = true) (hprivate : inPrivateNet (.inet a) = false)
    (hrejected : compareKnownTorAddrToAddrPolicy (.inet a) port (front ++ p :: behind) = .rejected) :
    ∃ q ∈ front.filter fun q => q.policyType = .reject ∧ q.CountedFor .inet port,
      q.coversAddr (.inet a) = true := by
  obtain ⟨htype, hfamily, hmask, hport⟩ := hall
  have hcovers : p.covers (.inet a, port) = true := by
    rw [AddrPolicy.covers, Bool.and_eq_true, AddrPolicy.coversAddr, decide_eq_true_iff, hmask,
      compareMasked_zero, hfamily]
    exact ⟨rfl, hport⟩
  have hverdict : policyVerdict (front ++ p :: behind) (.inet a, port) = .reject :=
    result_inj (compareKnown_eq.symm.trans hrejected)
  obtain ⟨q, hq, hqcovers, hqtype⟩ : ∃ q ∈ front, q.covers (.inet a, port) = true
      ∧ q.policyType = .reject := by
    by_contra hnone
    push Not at hnone
    have hagree : ∀ q ∈ front, q.covers (.inet a, port) = true → q.policyType = .accept := by
      intro q hq hcov
      have hne := hnone q hq hcov
      cases hqtype : q.policyType with
      | accept => rfl
      | reject => exact absurd hqtype hne
    have haccept : policyVerdict (front ++ p :: behind) (.inet a, port) = .accept :=
      firstMatch_append_of_agree hagree hcovers htype
    rw [haccept] at hverdict
    cases hverdict
  rw [AddrPolicy.covers, Bool.and_eq_true] at hqcovers
  have hsame : torAddrCompareMasked (.inet a) q.addr q.maskbits = 0 := of_decide_eq_true hqcovers.1
  have hcounted : q.Counted := by
    unfold AddrPolicy.Counted
    rw [hqtype]
    intro net hnet hparse
    have hin : inPrivateNet (.inet a) = true := by
      refine List.any_eq_true.mpr ⟨net, hnet, ?_⟩
      rw [hparse]
      exact decide_eq_true hsame
    rw [hin] at hprivate
    cases hprivate
  refine ⟨q, List.mem_filter.mpr ⟨hq, decide_eq_true ⟨hqtype, ?_, hcounted, hqcovers.2⟩⟩, hqcovers.1⟩
  exact (compareMasked_family hsame).symm

/-- **A port that is accepted in time is rejected for few addresses.** -/
theorem card_rejected_le (hmask : ∀ q ∈ policy, q.addr.family = .inet → q.maskbits ≤ 32)
    (h : AcceptedInTime policy .inet port) :
    (rejectedAddresses policy port).card ≤ rejectCutoffCount .inet := by
  obtain ⟨front, p, behind, rfl, htype, hfamily, hzero, hport, hsize⟩ := h
  have hsum : ((front.filter fun q => q.policyType = .reject ∧ q.CountedFor .inet port).map
      fun q => countedSize .inet q.maskbits).sum ≤ rejectCutoffCount .inet := by
    have hless : rejectCutoffCount .inet < uint64Max := by decide
    rcases min_le_iff.mp hsize with hmax | hsum
    · omega
    · exact hsum
  have hcov : ∀ a ∈ rejectedAddresses (front ++ p :: behind) port,
      ∃ q ∈ front.filter fun q => q.policyType = .reject ∧ q.CountedFor .inet port,
        q.coversAddr (.inet a) = true := by
    intro a ha
    obtain ⟨-, hprivate, hrejected⟩ := Finset.mem_filter.mp ha
    exact rejected_covered ⟨htype, hfamily, hzero, hport⟩ hprivate hrejected
  refine (card_le_sum_of_covered hcov fun q hq t ht => ?_).trans hsum
  obtain ⟨hmem, hfor⟩ := List.mem_filter.mp hq
  obtain ⟨-, hinet, -⟩ := of_decide_eq_true hfor
  have hbits := hmask q (List.mem_append_left _ hmem) hinet
  exact card_covered_le hinet hbits (ht.trans (Finset.filter_subset _ _))

end Meaning

/-- **A summary means what the policy says.** It is read back; each port is accepted as the policy
accepts it in time, or not at all if the summary is cut; and for IPv4 an accepted port is rejected
for at most 2²⁵ addresses outside of the private networks. -/
theorem summary_means_policy {policy : List AddrPolicy} {family : Family}
    (hfamily : family = .inet ∨ family = .inet6)
    (hports : ∀ p ∈ policy, 1 ≤ p.prtMin ∧ p.prtMin ≤ p.prtMax ∧ p.prtMax ≤ 65535)
    (hmask : ∀ p ∈ policy, p.addr.family = family → p.maskbits ≤ addrBits family)
    (hlen : policy.length ≤ intMax) :
    ∃ text short, policySummarize policy family = .ok text ∧ parseShortPolicy text = some short
      ∧ (¬ SummaryTruncated policy family →
        ∀ port, 1 ≤ port → port ≤ 65535 → ∀ internal addr, refusesInternal internal addr = false →
          (compareTorAddrToShortPolicy internal addr port short = .probablyAccepted
            ↔ AcceptedInTime policy family port))
      ∧ (SummaryTruncated policy family →
        ∀ port, 1 ≤ port → port ≤ 65535 → ∀ internal addr,
          compareTorAddrToShortPolicy internal addr port short = .probablyAccepted →
            AcceptedInTime policy family port)
      ∧ (family = .inet → ∀ port, 1 ≤ port → port ≤ 65535 → ∀ internal addr,
          compareTorAddrToShortPolicy internal addr port short = .probablyAccepted →
            (rejectedAddresses policy port).card ≤ 2 ^ 25) := by
  have hknown : family ≠ .unspec := by
    rintro rfl
    rcases hfamily with h | h <;> cases h
  have hgood : ∀ p ∈ policy, p.addr.family = family → p.Counted → p.InRange family := by
    intro p hp hsame _
    obtain ⟨hlo, hle, hhi⟩ := hports p hp
    exact ⟨hlo, hle, hhi, hmask p hp hsame⟩
  obtain ⟨summary, hitems, hcovers, hshows⟩ := policySummaryItems_shows hknown hgood hlen
  have hne : summary ≠ [] := by
    rintro rfl
    have hno : 1 = 65536 := hcovers
    omega
  have hverdicts : Shows SummaryItem.prtMin SummaryItem.prtMax SummaryItem.accepted
      (fun port => (portState family policy port).accepted) summary :=
    fun item hitem port hlo hhi => congrArg PortState.accepted (hshows item hitem port hlo hhi)
  have hranges := mergedRanges_show hne hcovers le_rfl hverdicts fun item _ p hle hlt => by omega
  obtain ⟨text, short, htext, hparse, hwhole, hpart⟩ := parses_text hranges hcovers
  have hsummarize : policySummarize policy family = .ok text :=
    bind_eq_ok.mpr ⟨summary, hitems, bind_eq_ok.mpr ⟨(), torAssert_eq_ok.mpr hne, htext⟩⟩
  have htruncated : SummaryTruncated policy family ↔ TooLong (summaryRanges 1 summary) := by
    constructor
    · rintro ⟨summary', hitems', hlong⟩
      obtain rfl := Except.ok.inj (hitems.symm.trans hitems')
      exact hlong
    · exact fun hlong => ⟨summary, hitems, hlong⟩
  -- an answer of the short policy is that of its ranges
  have hanswer : ∀ port internal addr,
      compareTorAddrToShortPolicy internal addr port short = .probablyAccepted ↔
        refusesInternal internal addr = false ∧ short.accepts port = true := by
    intro port internal addr
    unfold compareTorAddrToShortPolicy
    cases refusesInternal internal addr <;> cases short.accepts port <;> simp
  have hinTime : ∀ port, 1 ≤ port → port ≤ 65535 → ∀ internal addr,
      compareTorAddrToShortPolicy internal addr port short = .probablyAccepted →
        AcceptedInTime policy family port := by
    intro port hlo hhi internal addr hacc
    exact portState_accepted_iff_inTime.mp (hpart port hlo hhi ((hanswer _ _ _).mp hacc).2)
  refine ⟨text, short, hsummarize, hparse, fun hnot port hlo hhi internal addr hrefuses => ?_,
    fun _ => hinTime, fun hinet port hlo hhi internal addr hacc => ?_⟩
  · rw [hanswer, hwhole (fun hlong => hnot (htruncated.mpr hlong)) port hlo hhi,
      portState_accepted_iff_inTime]
    exact and_iff_right hrefuses
  · subst hinet
    exact card_rejected_le hmask (hinTime port hlo hhi internal addr hacc)

/-- A web server that does not deliver mail. -/
def rejectMail : List AddrPolicy :=
  [⟨.reject, false, 0, .inet 0, 25, 25⟩, ⟨.accept, false, 0, .inet 0, 1, 65535⟩]

/-- Its summary rejects port 25 and accepts the others. -/
theorem summary_means_policy_mail :
    ∃ text short, policySummarize rejectMail .inet = .ok text ∧ parseShortPolicy text = some short
      ∧ (¬ SummaryTruncated rejectMail .inet →
        ∀ port, 1 ≤ port → port ≤ 65535 → ∀ internal addr, refusesInternal internal addr = false →
          (compareTorAddrToShortPolicy internal addr port short = .probablyAccepted
            ↔ AcceptedInTime rejectMail .inet port))
      ∧ (SummaryTruncated rejectMail .inet →
        ∀ port, 1 ≤ port → port ≤ 65535 → ∀ internal addr,
          compareTorAddrToShortPolicy internal addr port short = .probablyAccepted →
            AcceptedInTime rejectMail .inet port)
      ∧ (Family.inet = .inet → ∀ port, 1 ≤ port → port ≤ 65535 → ∀ internal addr,
          compareTorAddrToShortPolicy internal addr port short = .probablyAccepted →
            (rejectedAddresses rejectMail port).card ≤ 2 ^ 25) :=
  summary_means_policy (.inl rfl) (by decide) (by decide) (by decide)

end Dittor.Tor

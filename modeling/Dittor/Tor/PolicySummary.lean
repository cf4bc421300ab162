import Mathlib
import Dittor.Lib.Checks
import Dittor.Lib.Tiling
import Dittor.Tor.ExitPolicy

/-!
# Summaries of exit policies (`policies.c`)

`policy_summarize` keeps a list of items, each a range of ports with a count of the addresses that
are rejected for it. A rule splits the list at the two ends of its own range; the loops that
look for them have no bound, and the split asserts that both halves have a port. Each step is a
computation that stops at the first assertion that fails, the fatal ones and the others; to
read past the end of the list fails as well.

The list is a tiling of the ports 1 to 65535 before every rule (`InSummary`). A rule with
`1 ≤ prt_min ≤ prt_max` keeps it. The port range `1-0` of a rule for port zero does not: its end
is looked for in the first item, and the split leaves nothing of it (`split_zero`).
-/

namespace Dittor.Tor

open Dittor.Lib

/-! ## Items -/

/-- `policy_summary_item_t` -/
structure SummaryItem where
  prtMin : ℕ
  prtMax : ℕ
  rejectCount : ℕ
  accepted : Bool
deriving DecidableEq, Repr

/-- What can fail: reading past the end, or an assertion of the function that is named. -/
inductive SummaryFailure where
  | outOfBounds
  | itemSplit
  | acceptEnd
  | rejectEnd
  | rejectMaskbits
  | rejectSmall
  | rejectLarge
  | rejectOverflow
  | privateNet
  | truncate
deriving DecidableEq, Repr

/-- `policy_summary_create` -/
def policySummaryCreate : List SummaryItem := [⟨1, 65535, 0, false⟩]

/-- `policy_summary_item_split`, in sixteen bits -/
def policySummaryItemSplit (old : SummaryItem) (newStarts : ℕ) :
    Except SummaryFailure (SummaryItem × SummaryItem) := do
  let new := { old with prtMin := newStarts }
  let old := { old with prtMax := (newStarts + 65535) % 65536 }
  torAssert (old.prtMin ≤ old.prtMax ∧ new.prtMin ≤ new.prtMax) .itemSplit
  return (old, new)

/-- The first half of `policy_summary_split`: the items before `start_at_index`, and from it on. -/
def splitStart (summary : List SummaryItem) (prtMin : ℕ) :
    Except SummaryFailure (List SummaryItem × List SummaryItem) :=
  let front := summary.takeWhile fun item => item.prtMax < prtMin
  match summary.dropWhile fun item => item.prtMax < prtMin with
  | [] => .error .outOfBounds
  | item :: items =>
    if item.prtMin ≠ prtMin then do
      let (old, new) ← policySummaryItemSplit item prtMin
      return (front ++ [old], new :: items)
    else .ok (front, item :: items)

/-- The second half, from `start_at_index` on. -/
def splitEnd (rest : List SummaryItem) (prtMax : ℕ) : Except SummaryFailure (List SummaryItem) :=
  let front := rest.takeWhile fun item => item.prtMax < prtMax
  match rest.dropWhile fun item => item.prtMax < prtMax with
  | [] => .error .outOfBounds
  | item :: items =>
    if item.prtMax ≠ prtMax then do
      let (old, new) ← policySummaryItemSplit item ((prtMax + 1) % 65536)
      return front ++ old :: new :: items
    else .ok rest

/-- `policy_summary_split` -/
def policySummarySplit (summary : List SummaryItem) (prtMin prtMax : ℕ) :
    Except SummaryFailure (List SummaryItem × List SummaryItem) := do
  let (front, rest) ← splitStart summary prtMin
  let rest ← splitEnd rest prtMax
  return (front, rest)

/-! ## Rules -/

/-- `REJECT_CUTOFF_COUNT_IPV4` and `REJECT_CUTOFF_COUNT_IPV6` -/
def rejectCutoffCount (family : Family) : ℕ := if family = .inet then 2 ^ 25 else 2 ^ 48

/-- `addrbits` -/
def addrBits (family : Family) : ℕ := if family = .inet then 32 else 128

/-- `REJECT_CUTOFF_SCALE_IPV4` and `REJECT_CUTOFF_SCALE_IPV6` -/
def rejectCutoffScale (family : Family) : ℕ := if family = .inet then 0 else 64

/-- `UINT64_MAX` -/
def uint64Max : ℕ := 2 ^ 64 - 1

/-- The items that the loop behind a split changes. -/
def itemsUpTo (prtMax : ℕ) (rest : List SummaryItem) : List SummaryItem :=
  rest.takeWhile fun item => item.prtMax ≤ prtMax

/-- The items behind them. -/
def itemsBehind (prtMax : ℕ) (rest : List SummaryItem) : List SummaryItem :=
  rest.dropWhile fun item => item.prtMax ≤ prtMax

/-- The loop, and the assertion behind it. -/
def changeUpTo (prtMax : ℕ) (f : SummaryItem → SummaryItem) (failed : SummaryFailure)
    (front rest : List SummaryItem) : Except SummaryFailure (List SummaryItem) := do
  torAssert (itemsBehind prtMax rest ≠ [] ∨ prtMax = 65535) failed
  return front ++ ((itemsUpTo prtMax rest).map f ++ itemsBehind prtMax rest)

/-- An item that is accepted unless too much of it is rejected already. -/
def acceptItem (family : Family) (item : SummaryItem) : SummaryItem :=
  { item with accepted := item.accepted || item.rejectCount ≤ rejectCutoffCount family }

/-- `policy_summary_accept` -/
def policySummaryAccept (summary : List SummaryItem) (prtMin prtMax : ℕ) (family : Family) :
    Except SummaryFailure (List SummaryItem) := do
  let (front, rest) ← policySummarySplit summary prtMin prtMax
  changeUpTo prtMax (acceptItem family) .acceptEnd front rest

/-- The addresses of a network, at most `UINT64_MAX`. -/
def rejectionCount (family : Family) (maskbits : ℕ) : ℕ :=
  if 64 ≤ addrBits family - rejectCutoffScale family - maskbits then uint64Max
  else 2 ^ (addrBits family - rejectCutoffScale family - maskbits)

/-- `reject_count += count`, saturating -/
def rejectItem (count : ℕ) (item : SummaryItem) : SummaryItem :=
  { item with rejectCount :=
      if item.rejectCount ≤ uint64Max - count then item.rejectCount + count else uint64Max }

/-- `policy_summary_reject` -/
def policySummaryReject (summary : List SummaryItem) (maskbits prtMin prtMax : ℕ)
    (family : Family) : Except SummaryFailure (List SummaryItem) := do
  let (front, rest) ← policySummarySplit summary prtMin prtMax
  torAssert (maskbits ≤ addrBits family) .rejectMaskbits
  if addrBits family - rejectCutoffScale family < maskbits then do
    torAssert (family = .inet6) .rejectSmall
    return front ++ rest
  else do
    let count := rejectionCount family maskbits
    torAssert ((64 ≤ addrBits family - rejectCutoffScale family - maskbits → family = .inet6)
      ∧ 0 < count) .rejectLarge
    -- saturation is not expected for IPv4
    torAssert (family = .inet → ∀ item ∈ itemsUpTo prtMax rest,
      item.rejectCount ≤ uint64Max - count) .rejectOverflow
    changeUpTo prtMax (rejectItem count) .rejectEnd front rest

/-- `is_private` -/
def isPrivateNet (p : AddrPolicy) : List Bytes → Except SummaryFailure Bool
  | [] => .ok false
  | net :: nets =>
    match torAddrParseMask net with
    | none => .error .privateNet
    | some r => if r = (p.addr, p.maskbits) then .ok true else isPrivateNet p nets

/-- `policy_summary_add_item` -/
def policySummaryAddItem (summary : List SummaryItem) (p : AddrPolicy) :
    Except SummaryFailure (List SummaryItem) :=
  match p.policyType with
  | .accept =>
    if p.maskbits = 0 then policySummaryAccept summary p.prtMin p.prtMax p.addr.family
    else .ok summary
  | .reject => do
    let isPrivate ← isPrivateNet p privateNets
    if isPrivate then .ok summary
    else policySummaryReject summary p.maskbits p.prtMin p.prtMax p.addr.family

/-- One round of the loop over the policy. -/
def summaryStep (family : Family) (summary : List SummaryItem) (p : AddrPolicy) :
    Except SummaryFailure (List SummaryItem) :=
  if p.addr.family ≠ family then .ok summary else policySummaryAddItem summary p

/-- The list behind the loop. -/
def policySummaryItems (policy : List AddrPolicy) (family : Family) :
    Except SummaryFailure (List SummaryItem) :=
  policy.foldlM (summaryStep family) policySummaryCreate

/-! ## The text -/

/-- A range of ports in the text. -/
def portRangeText (start stop : ℕ) : Bytes :=
  if start = stop then decimal start else decimal start ++ byte '-' :: decimal stop

/-- The ranges with `accepted` or without, neighbours merged. -/
def summaryRanges : ℕ → List SummaryItem → List (Bool × Bytes)
  | _, [] => []
  | start, [item] => [(item.accepted, portRangeText start item.prtMax)]
  | start, item :: next :: items =>
    if item.accepted ≠ next.accepted then
      (item.accepted, portRangeText start item.prtMax) :: summaryRanges next.prtMin (next :: items)
    else summaryRanges start (next :: items)

/-- `MAX_EXITPOLICY_SUMMARY_LEN`, less the word in front and a blank -/
def maxSummaryText : ℕ := 1000 - 6 - 1

/-- The text up to its last comma at or before `maxSummaryText`. -/
def truncateSummary (text : Bytes) : Except SummaryFailure Bytes :=
  match (text.take (maxSummaryText + 1)).reverse.dropWhile fun b => b ≠ byte ',' with
  | [] => .error .truncate
  | _ :: front => .ok front.reverse

/-- The ranges joined. -/
def rangesText (accepted : Bool) (ranges : List (Bool × Bytes)) : Bytes :=
  [byte ','].intercalate ((ranges.filter fun r => r.1 = accepted).map Prod.snd)

/-- The shorter of the two texts. -/
def summaryText (ranges : List (Bool × Bytes)) : Except SummaryFailure Bytes :=
  let accepts := rangesText true ranges
  let rejects := rangesText false ranges
  if (ranges.filter fun r => r.1 = true) = [] then .ok (cstring "reject 1-65535")
  else if (ranges.filter fun r => r.1 = false) = [] then .ok (cstring "accept 1-65535")
  else if maxSummaryText < rejects.length ∧ maxSummaryText < accepts.length then
    (truncateSummary accepts).map fun text => cstring "accept " ++ text
  else if rejects.length < accepts.length then .ok (cstring "reject " ++ rejects)
  else .ok (cstring "accept " ++ accepts)

/-- `policy_summarize` -/
def policySummarize (policy : List AddrPolicy) (family : Family) :
    Except SummaryFailure Bytes := do
  let summary ← policySummaryItems policy family
  torAssert (summary ≠ []) .outOfBounds
  summaryText (summaryRanges 1 summary)

/-! ## Splitting a tiling -/

/-- The items cover these ports, in order and without a gap. -/
abbrev Covers (lo hi : ℕ) (items : List SummaryItem) : Prop :=
  Tiles SummaryItem.prtMin SummaryItem.prtMax lo hi items

/-- The item lies in an older one and has its count and its verdict. -/
structure SummaryItem.PartOf (item old : SummaryItem) : Prop where
  first : old.prtMin ≤ item.prtMin
  last : item.prtMax ≤ old.prtMax
  count : item.rejectCount = old.rejectCount
  verdict : item.accepted = old.accepted

/-- Every item is a part of one that was there before. -/
def PartsOf (summary items : List SummaryItem) : Prop :=
  ∀ item ∈ items, ∃ old ∈ summary, item.PartOf old

/-- Every item has the count of one that was there before. -/
def CountsFrom (summary items : List SummaryItem) : Prop :=
  ∀ item ∈ items, ∃ old ∈ summary, item.rejectCount = old.rejectCount

section Split

variable {summary rest : List SummaryItem} {lo hi : ℕ}

theorem itemSplit_ok {item : SummaryItem} {newStarts : ℕ} (hlo : item.prtMin < newStarts)
    (hhi : newStarts ≤ item.prtMax) (hmax : item.prtMax ≤ 65535) :
    policySummaryItemSplit item newStarts =
      .ok ({ item with prtMax := newStarts - 1 }, { item with prtMin := newStarts }) := by
  have hwrap : (newStarts + 65535) % 65536 = newStarts - 1 := by omega
  unfold policySummaryItemSplit
  dsimp only
  rw [hwrap]
  refine bind_eq_ok.mpr ⟨(), torAssert_eq_ok.mpr ⟨?_, hhi⟩, rfl⟩
  show item.prtMin ≤ newStarts - 1
  omega

theorem SummaryItem.PartOf.refl (item : SummaryItem) : item.PartOf item :=
  ⟨le_rfl, le_rfl, rfl, rfl⟩

theorem SummaryItem.PartOf.trans {a b c : SummaryItem} (hab : a.PartOf b) (hbc : b.PartOf c) :
    a.PartOf c :=
  ⟨hbc.first.trans hab.first, hab.last.trans hbc.last, hab.count.trans hbc.count,
    hab.verdict.trans hbc.verdict⟩

theorem PartsOf.countsFrom (h : PartsOf summary rest) : CountsFrom summary rest := by
  intro item hitem
  obtain ⟨old, hold, hpart⟩ := h item hitem
  exact ⟨old, hold, hpart.count⟩

theorem partsOf_nil : PartsOf summary [] := fun _ h => absurd h List.not_mem_nil

/-- Parts of a list that is cut in three. -/
theorem partsOf_cut {p : SummaryItem → Bool} {item : SummaryItem} {items : List SummaryItem}
    (hdrop : summary.dropWhile p = item :: items) :
    PartsOf summary (summary.takeWhile p) ∧ item ∈ summary ∧ PartsOf summary items := by
  have hall : summary = summary.takeWhile p ++ item :: items := by
    rw [← hdrop]
    exact List.takeWhile_append_dropWhile.symm
  refine ⟨fun x hx => ⟨x, ?_, .refl x⟩, ?_, fun x hx => ⟨x, ?_, .refl x⟩⟩
  · exact (List.takeWhile_prefix p).subset hx
  · rw [hall]
    simp
  · rw [hall]
    simp [hx]

theorem PartsOf.append {a b : List SummaryItem} (ha : PartsOf summary a)
    (hb : PartsOf summary b) : PartsOf summary (a ++ b) := by
  intro item hitem
  rcases List.mem_append.mp hitem with h | h
  · exact ha item h
  · exact hb item h

theorem PartsOf.cons {item old : SummaryItem} {a : List SummaryItem} (hold : old ∈ summary)
    (hpart : item.PartOf old) (ha : PartsOf summary a) : PartsOf summary (item :: a) :=
  List.forall_mem_cons.mpr ⟨⟨old, hold, hpart⟩, ha⟩

/-- The start of the range becomes the start of an item. -/
theorem splitStart_ok (h : Covers 1 65536 summary) (hlo : 1 ≤ lo) (hhi : lo < 65536) :
    ∃ front rest, splitStart summary lo = .ok (front, rest) ∧ Covers 1 lo front
      ∧ Covers lo 65536 rest ∧ PartsOf summary front ∧ PartsOf summary rest := by
  obtain ⟨item, items, hdrop, hfirst, hlast, hfront, hitems⟩ := h.span hlo hhi
  obtain ⟨hpfront, hmem, hpitems⟩ := partsOf_cut hdrop
  have hmax : item.prtMax ≤ 65535 := by
    have := h.last_lt hmem
    omega
  unfold splitStart
  dsimp only
  rw [hdrop]
  dsimp only
  by_cases hsame : item.prtMin = lo
  · rw [if_neg (not_not.mpr hsame)]
    exact ⟨_, _, rfl, hsame ▸ hfront, ⟨hsame, hlast, hitems⟩, hpfront, hpitems.cons hmem (.refl item)⟩
  · have hlt : item.prtMin < lo := lt_of_le_of_ne hfirst hsame
    have hbefore : SummaryItem.PartOf { item with prtMax := lo - 1 } item :=
      ⟨le_rfl, (Nat.sub_le lo 1).trans hlast, rfl, rfl⟩
    have hbehind : SummaryItem.PartOf { item with prtMin := lo } item := ⟨hfirst, le_rfl, rfl, rfl⟩
    rw [if_pos hsame, itemSplit_ok hlt hlast hmax]
    refine ⟨_, _, rfl, tiles_append.mpr ⟨_, hfront, rfl, ?_, ?_⟩, ⟨rfl, hlast, hitems⟩,
      hpfront.append (partsOf_nil.cons hmem hbefore), hpitems.cons hmem hbehind⟩
    · show item.prtMin ≤ lo - 1
      omega
    · show lo - 1 + 1 = lo
      omega

/-- The end of the range becomes the end of an item. -/
theorem splitEnd_ok (h : Covers lo 65536 rest) (hlo : lo ≤ hi) (hhi : hi < 65536) :
    ∃ mid post, splitEnd rest hi = .ok (mid ++ post) ∧ Covers lo (hi + 1) mid
      ∧ Covers (hi + 1) 65536 post ∧ PartsOf rest (mid ++ post) := by
  obtain ⟨item, items, hdrop, hfirst, hlast, hfront, hitems⟩ := h.span hlo hhi
  obtain ⟨hpfront, hmem, hpitems⟩ := partsOf_cut hdrop
  have hmax : item.prtMax ≤ 65535 := by
    have := h.last_lt hmem
    omega
  have hle := (h.first_le hmem).2
  unfold splitEnd
  dsimp only
  rw [hdrop]
  dsimp only
  by_cases hsame : item.prtMax = hi
  · rw [if_neg (not_not.mpr hsame)]
    have hall : rest = (rest.takeWhile (fun item => item.prtMax < hi) ++ [item]) ++ items := by
      rw [List.append_assoc, List.singleton_append, ← hdrop]
      exact List.takeWhile_append_dropWhile.symm
    refine ⟨rest.takeWhile (fun item => item.prtMax < hi) ++ [item], items, by rw [← hall], ?_, ?_, ?_⟩
    · refine tiles_append.mpr ⟨_, hfront, rfl, hle, ?_⟩
      show item.prtMax + 1 = hi + 1
      rw [hsame]
    · exact hsame ▸ hitems
    · rw [← hall]
      exact fun x hx => ⟨x, hx, .refl x⟩
  · have hwrap : (hi + 1) % 65536 = hi + 1 := by omega
    rw [if_pos hsame, hwrap, itemSplit_ok (by omega) (by omega) hmax]
    refine ⟨rest.takeWhile (fun item => item.prtMax < hi) ++ [{ item with prtMax := hi + 1 - 1 }],
      { item with prtMin := hi + 1 } :: items, ?_, ?_, ⟨rfl, ?_, hitems⟩, ?_⟩
    · rw [List.append_assoc]
      rfl
    · refine tiles_append.mpr ⟨_, hfront, rfl, ?_, rfl⟩
      show item.prtMin ≤ hi
      exact hfirst
    · show hi + 1 ≤ item.prtMax
      omega
    · have hbefore : SummaryItem.PartOf { item with prtMax := hi + 1 - 1 } item :=
        ⟨le_rfl, hlast, rfl, rfl⟩
      have hbehind : SummaryItem.PartOf { item with prtMin := hi + 1 } item :=
        ⟨by show item.prtMin ≤ hi + 1; omega, le_rfl, rfl, rfl⟩
      exact (hpfront.append (partsOf_nil.cons hmem hbefore)).append (hpitems.cons hmem hbehind)

/-- A list that is cut at the ends of a range. -/
structure CutAt (summary : List SummaryItem) (lo hi : ℕ) (front mid post : List SummaryItem) :
    Prop where
  before : Covers 1 lo front
  inside : Covers lo (hi + 1) mid
  behind : Covers (hi + 1) 65536 post
  parts : PartsOf summary (front ++ (mid ++ post))

/-- **A split cuts the list at both ends of the range.** -/
theorem policySummarySplit_ok (h : Covers 1 65536 summary) (hlo : 1 ≤ lo) (hle : lo ≤ hi)
    (hhi : hi < 65536) :
    ∃ front mid post, policySummarySplit summary lo hi = .ok (front, mid ++ post)
      ∧ CutAt summary lo hi front mid post := by
  obtain ⟨front, rest, hstart, hfront, hrest, hpfront, hprest⟩ :=
    splitStart_ok h hlo (lt_of_le_of_lt hle hhi)
  obtain ⟨mid, post, hend, hmid, hpost, hp⟩ := splitEnd_ok hrest hle hhi
  refine ⟨front, mid, post, ?_, hfront, hmid, hpost, hpfront.append fun item hitem => ?_⟩
  · exact bind_eq_ok.mpr ⟨(front, rest), hstart, bind_eq_ok.mpr ⟨_, hend, rfl⟩⟩
  · obtain ⟨old, hold, hpart⟩ := hp item hitem
    obtain ⟨old', hold', hpart'⟩ := hprest old hold
    exact ⟨old', hold', hpart.trans hpart'⟩

/-- The range of port zero fails at once. -/
theorem split_zero (h : Covers 1 65536 summary) :
    policySummarySplit summary 1 0 = .error .itemSplit := by
  cases summary with
  | nil =>
    have hno : 1 = 65536 := h
    omega
  | cons item items =>
    obtain ⟨hfirst, hlast, -⟩ := h
    have hstart : splitStart (item :: items) 1 = .ok ([], item :: items) := by
      have hnot : ¬ item.prtMax < 1 := by omega
      unfold splitStart
      dsimp only
      rw [List.dropWhile_cons_of_neg (by simpa using hnot),
        List.takeWhile_cons_of_neg (by simpa using hnot)]
      dsimp only
      rw [if_neg (not_not.mpr hfirst)]
    have hend : splitEnd (item :: items) 0 = .error .itemSplit := by
      have hpos : item.prtMax ≠ 0 := by omega
      unfold splitEnd
      dsimp only
      rw [List.dropWhile_cons_of_neg (by simp)]
      dsimp only
      rw [if_pos hpos]
      unfold policySummaryItemSplit torAssert
      dsimp only
      rw [if_neg (by omega)]
      rfl
    unfold policySummarySplit
    rw [hstart]
    show (splitEnd (item :: items) 0 >>= fun rest => .ok ([], rest)) = _
    rw [hend]
    rfl

end Split

/-! ## One rule -/

/-- The list behind `n` rules. An item counts at most all addresses of IPv4 for each rule. -/
structure InSummary (family : Family) (n : ℕ) (summary : List SummaryItem) : Prop where
  covers : Covers 1 65536 summary
  counts : family = .inet → ∀ item ∈ summary, item.rejectCount ≤ n * 2 ^ 32

/-- A rule that the summary does not ignore: an `accept` for all addresses, or a `reject` that is
not about a private network. -/
def AddrPolicy.Counted (p : AddrPolicy) : Prop :=
  match p.policyType with
  | .accept => p.maskbits = 0
  | .reject => ∀ net ∈ privateNets, torAddrParseMask net ≠ some (p.addr, p.maskbits)

instance : DecidablePred AddrPolicy.Counted := fun p =>
  match htype : p.policyType with
  | .accept => decidable_of_iff (p.maskbits = 0) (by rw [AddrPolicy.Counted, htype])
  | .reject =>
    decidable_of_iff
      (∀ net ∈ privateNets, torAddrParseMask net ≠ some (p.addr, p.maskbits))
      (by rw [AddrPolicy.Counted, htype])

section Step

variable {family : Family} {n : ℕ} {summary : List SummaryItem} {p : AddrPolicy}

theorem InSummary.mono {m : ℕ} (h : InSummary family n summary) (hle : n ≤ m) :
    InSummary family m summary :=
  ⟨h.covers, fun hinet item hitem =>
    le_trans (h.counts hinet item hitem) (Nat.mul_le_mul_right _ hle)⟩

theorem items_cut {lo hi : ℕ} {mid post : List SummaryItem} (hmid : Covers lo (hi + 1) mid)
    (hpost : Covers (hi + 1) 65536 post) :
    itemsUpTo hi (mid ++ post) = mid ∧ itemsBehind hi (mid ++ post) = post := by
  have hsame : (fun item : SummaryItem => decide (item.prtMax ≤ hi)) =
      fun item => decide (item.prtMax < hi + 1) := by
    funext item
    simp only [Nat.lt_succ_iff]
  unfold itemsUpTo itemsBehind
  rw [hsame]
  exact Tiles.span_boundary hmid hpost

/-- The loop behind a split changes the items of the range. -/
theorem changeUpTo_ok {lo hi : ℕ} {front mid post : List SummaryItem} {f : SummaryItem → SummaryItem}
    {failed : SummaryFailure} (hmid : Covers lo (hi + 1) mid) (hpost : Covers (hi + 1) 65536 post) :
    changeUpTo hi f failed front (mid ++ post) = .ok (front ++ (mid.map f ++ post)) := by
  obtain ⟨hup, hbehind⟩ := items_cut hmid hpost
  unfold changeUpTo
  rw [hup, hbehind]
  refine bind_eq_ok.mpr ⟨(), torAssert_eq_ok.mpr ?_, rfl⟩
  by_cases hnil : post = []
  · subst hnil
    have heq : hi + 1 = 65536 := hpost
    exact .inr (by omega)
  · exact .inl hnil

/-- What is cut is still a tiling, also behind a change of the items in the middle. -/
theorem CutAt.covers {lo hi : ℕ} {front mid post : List SummaryItem}
    (h : CutAt summary lo hi front mid post) {f : SummaryItem → SummaryItem}
    (hmin : ∀ item, (f item).prtMin = item.prtMin) (hmax : ∀ item, (f item).prtMax = item.prtMax) :
    Covers 1 65536 (front ++ (mid.map f ++ post)) :=
  tiles_append.mpr ⟨lo, h.before, tiles_append.mpr ⟨hi + 1, h.inside.map hmin hmax, h.behind⟩⟩

/-- The counts in a list that is cut. -/
theorem CutAt.counts {lo hi : ℕ} {front mid post : List SummaryItem}
    (h : CutAt summary lo hi front mid post) (hin : InSummary family n summary)
    (hinet : family = .inet) : ∀ item ∈ front ++ (mid ++ post), item.rejectCount ≤ n * 2 ^ 32 := by
  intro item hitem
  obtain ⟨old, hold, hcount⟩ := h.parts.countsFrom item hitem
  rw [hcount]
  exact hin.counts hinet old hold

variable (family) in
/-- `policy_summary_accept` changes the items of a range with a port in it. -/
theorem accept_eq (h : Covers 1 65536 summary) {lo hi : ℕ} (hlo : 1 ≤ lo) (hle : lo ≤ hi)
    (hhi : hi ≤ 65535) :
    ∃ front mid post, CutAt summary lo hi front mid post
      ∧ policySummaryAccept summary lo hi family
        = .ok (front ++ (mid.map (acceptItem family) ++ post)) := by
  obtain ⟨front, mid, post, hsplit, hcut⟩ := policySummarySplit_ok h hlo hle (by omega)
  exact ⟨front, mid, post, hcut, bind_eq_ok.mpr ⟨_, hsplit, changeUpTo_ok hcut.inside hcut.behind⟩⟩

/-- `policy_summary_accept` on a range with a port in it. -/
theorem accept_ok (h : InSummary family n summary) {lo hi : ℕ} (hlo : 1 ≤ lo) (hle : lo ≤ hi)
    (hhi : hi ≤ 65535) :
    ∃ summary', policySummaryAccept summary lo hi family = .ok summary'
      ∧ InSummary family n summary' := by
  obtain ⟨front, mid, post, hcut, hok⟩ := accept_eq family h.covers hlo hle hhi
  refine ⟨_, hok, hcut.covers (fun _ => rfl) (fun _ => rfl), fun hinet item hitem => ?_⟩
  -- accepting leaves the counts
  have hcount : ∃ old ∈ front ++ (mid ++ post), item.rejectCount = old.rejectCount := by
    simp only [List.mem_append, List.mem_map] at hitem ⊢
    rcases hitem with hf | ⟨old, hold, rfl⟩ | hp
    · exact ⟨item, .inl hf, rfl⟩
    · exact ⟨old, .inr (.inl hold), rfl⟩
    · exact ⟨item, .inr (.inr hp), rfl⟩
  obtain ⟨old, hold, heq⟩ := hcount
  rw [heq]
  exact hcut.counts h hinet old hold

theorem rejectionCount_inet {maskbits : ℕ} :
    rejectionCount .inet maskbits ≤ 2 ^ 32 := by
  have hsmall : ¬ 64 ≤ addrBits .inet - rejectCutoffScale .inet - maskbits := by
    have hbits : addrBits .inet - rejectCutoffScale .inet = 32 := rfl
    omega
  unfold rejectionCount
  rw [if_neg hsmall]
  exact Nat.pow_le_pow_right (by decide) (Nat.sub_le _ _)

theorem rejectionCount_pos (family : Family) (maskbits : ℕ) :
    0 < rejectionCount family maskbits := by
  unfold rejectionCount
  split
  · decide
  · exact Nat.two_pow_pos _

/-- What a rejected network does to an item: one below the scale is not counted. -/
def countItem (family : Family) (maskbits : ℕ) (item : SummaryItem) : SummaryItem :=
  if addrBits family - rejectCutoffScale family < maskbits then item
  else rejectItem (rejectionCount family maskbits) item

theorem countItem_ports (maskbits : ℕ) (item : SummaryItem) :
    (countItem family maskbits item).prtMin = item.prtMin
      ∧ (countItem family maskbits item).prtMax = item.prtMax
      ∧ (countItem family maskbits item).accepted = item.accepted := by
  unfold countItem
  split <;> exact ⟨rfl, rfl, rfl⟩

/-- There is room for one network more. -/
theorem rejectItem_fits {item : SummaryItem} {maskbits : ℕ} (hn : n < intMax)
    (h : item.rejectCount ≤ n * 2 ^ 32) :
    item.rejectCount ≤ uint64Max - rejectionCount .inet maskbits := by
  have hone := @rejectionCount_inet maskbits
  have hmax : uint64Max = 2 ^ 64 - 1 := rfl
  have hint : intMax = 2 ^ 31 - 1 := rfl
  omega

/-- `policy_summary_reject` changes the items of a range with a port in it. -/
theorem reject_eq (h : InSummary family n summary) (hn : n < intMax) (hfamily : family ≠ .unspec)
    {lo hi maskbits : ℕ} (hlo : 1 ≤ lo) (hle : lo ≤ hi) (hhi : hi ≤ 65535)
    (hbits : maskbits ≤ addrBits family) :
    ∃ front mid post, CutAt summary lo hi front mid post
      ∧ policySummaryReject summary maskbits lo hi family
        = .ok (front ++ (mid.map (countItem family maskbits) ++ post)) := by
  obtain ⟨front, mid, post, hsplit, hcut⟩ := policySummarySplit_ok h.covers hlo hle (by omega)
  refine ⟨front, mid, post, hcut, bind_eq_ok.mpr ⟨_, hsplit,
    bind_eq_ok.mpr ⟨(), torAssert_eq_ok.mpr hbits, ?_⟩⟩⟩
  by_cases hsmall : addrBits family - rejectCutoffScale family < maskbits
  · -- too small to be counted
    have hsix : family = .inet6 := by
      cases family with
      | unspec => exact absurd rfl hfamily
      | inet => exact absurd hsmall (not_lt.mpr hbits)
      | inet6 => rfl
    have hsame : mid.map (countItem family maskbits) = mid :=
      List.map_id'' (fun item => if_pos hsmall) mid
    rw [if_pos hsmall, hsame]
    exact bind_eq_ok.mpr ⟨(), torAssert_eq_ok.mpr hsix, rfl⟩
  · have hlarge : 64 ≤ addrBits family - rejectCutoffScale family - maskbits → family = .inet6 := by
      intro hbig
      cases family with
      | unspec => exact absurd rfl hfamily
      | inet =>
        have hbits : addrBits .inet - rejectCutoffScale .inet = 32 := rfl
        omega
      | inet6 => rfl
    have hcount : countItem family maskbits = rejectItem (rejectionCount family maskbits) :=
      funext fun item => if_neg hsmall
    rw [if_neg hsmall, hcount]
    refine bind_eq_ok.mpr ⟨(), torAssert_eq_ok.mpr ⟨hlarge, rejectionCount_pos _ _⟩, ?_⟩
    refine bind_eq_ok.mpr ⟨(), torAssert_eq_ok.mpr fun hinet item hitem => ?_,
      changeUpTo_ok hcut.inside hcut.behind⟩
    rw [(items_cut hcut.inside hcut.behind).1] at hitem
    have hold := hcut.counts h hinet item (by simp [hitem])
    subst hinet
    exact rejectItem_fits hn hold

/-- `policy_summary_reject` on a range with a port in it. -/
theorem reject_ok (h : InSummary family n summary) (hn : n < intMax) (hfamily : family ≠ .unspec)
    {lo hi maskbits : ℕ} (hlo : 1 ≤ lo) (hle : lo ≤ hi) (hhi : hi ≤ 65535)
    (hbits : maskbits ≤ addrBits family) :
    ∃ summary', policySummaryReject summary maskbits lo hi family = .ok summary'
      ∧ InSummary family (n + 1) summary' := by
  obtain ⟨front, mid, post, hcut, hok⟩ := reject_eq h hn hfamily hlo hle hhi hbits
  refine ⟨_, hok, hcut.covers (fun item => (countItem_ports maskbits item).1)
    (fun item => (countItem_ports maskbits item).2.1), fun hinet item hitem => ?_⟩
  subst hinet
  -- an item of the range has counted one network more
  have hbound : ∀ old ∈ front ++ (mid ++ post), old.rejectCount ≤ (n + 1) * 2 ^ 32 :=
    fun old hmem => (hcut.counts h rfl old hmem).trans (Nat.mul_le_mul_right _ (Nat.le_succ n))
  simp only [List.mem_append, List.mem_map] at hitem hbound
  rcases hitem with hf | ⟨old, hmem, rfl⟩ | hp
  · exact hbound item (.inl hf)
  · have hcount := hcut.counts h rfl old (by simp [hmem])
    have hscale : ¬ addrBits .inet - rejectCutoffScale .inet < maskbits := not_lt.mpr hbits
    have hone := @rejectionCount_inet maskbits
    rw [countItem, if_neg hscale]
    show (if old.rejectCount ≤ uint64Max - rejectionCount .inet maskbits then _ else _) ≤ _
    rw [if_pos (rejectItem_fits hn hcount)]
    omega
  · exact hbound item (.inr (.inr hp))

theorem isPrivateNet_eq {nets : List Bytes}
    (h : ∀ net ∈ nets, (torAddrParseMask net).isSome = true) :
    isPrivateNet p nets =
      .ok (decide (∃ net ∈ nets, torAddrParseMask net = some (p.addr, p.maskbits))) := by
  induction nets with
  | nil => simp [isPrivateNet]
  | cons net nets ih =>
    obtain ⟨r, hr⟩ := Option.isSome_iff_exists.mp (h net List.mem_cons_self)
    rw [isPrivateNet, hr]
    dsimp only
    by_cases hsame : r = (p.addr, p.maskbits)
    · rw [if_pos hsame]
      simp [hr, hsame]
    · rw [if_neg hsame, ih fun net hnet => h net (List.mem_cons_of_mem _ hnet)]
      simp [hr, hsame]

/-- A rule that is ignored. -/
theorem addItem_ignored (h : ¬ p.Counted) : policySummaryAddItem summary p = .ok summary := by
  unfold AddrPolicy.Counted at h
  unfold policySummaryAddItem
  cases htype : p.policyType with
  | accept =>
    rw [htype] at h
    exact if_neg h
  | reject =>
    rw [htype] at h
    dsimp only at h ⊢
    push Not at h
    rw [isPrivateNet_eq fun net hnet => (privateNets_parse net hnet).2, decide_eq_true h]
    rfl

/-- A rule that is counted. -/
theorem addItem_counted (h : p.Counted) :
    policySummaryAddItem summary p =
      match p.policyType with
      | .accept => policySummaryAccept summary p.prtMin p.prtMax p.addr.family
      | .reject => policySummaryReject summary p.maskbits p.prtMin p.prtMax p.addr.family := by
  unfold AddrPolicy.Counted at h
  unfold policySummaryAddItem
  cases htype : p.policyType with
  | accept =>
    rw [htype] at h
    exact if_pos h
  | reject =>
    rw [htype] at h
    dsimp only at h ⊢
    have hnone : ¬ ∃ net ∈ privateNets, torAddrParseMask net = some (p.addr, p.maskbits) := by
      push Not
      exact h
    rw [isPrivateNet_eq fun net hnet => (privateNets_parse net hnet).2, decide_eq_false hnone]
    rfl

/-- A counted rule of the family for port zero. -/
def CountsPortZero (family : Family) (p : AddrPolicy) : Prop :=
  p.addr.family = family ∧ p.Counted ∧ p.prtMax = 0

variable {line : PolicyLine}

/-- The upper end tells whether the text is that of port zero. -/
theorem PolicyLine.Rule.zero_iff (hrule : line.Rule p) :
    p.prtMax = 0 ↔ IsPortZero line.portText := by
  obtain ⟨hlo, -, -, hzero, hplain⟩ := parsePortRange_spec hrule.ports
  constructor
  · intro hmax
    by_contra hno
    have hle := hplain hno
    omega
  · exact fun hz => (hzero hz).2

/-- A rule with a port in its range, and with a mask of its family. -/
structure AddrPolicy.InRange (p : AddrPolicy) (family : Family) : Prop where
  first : 1 ≤ p.prtMin
  order : p.prtMin ≤ p.prtMax
  last : p.prtMax ≤ 65535
  mask : p.maskbits ≤ addrBits family

/-- A rule of a line is in range, unless it is counted for port zero. -/
theorem PolicyLine.Rule.inRange (hrule : line.Rule p) (hgood : ¬ CountsPortZero family p)
    (hfamily : family ≠ .unspec) (hsame : p.addr.family = family) (hcounted : p.Counted) :
    p.InRange family := by
  have hport : ¬ IsPortZero line.portText := fun hzero =>
    hgood ⟨hsame, hcounted, hrule.zero_iff.mpr hzero⟩
  obtain ⟨hlo, -, hhi, -, hplain⟩ := parsePortRange_spec hrule.ports
  refine ⟨hlo, hplain hport, hhi, ?_⟩
  cases family with
  | unspec => exact absurd rfl hfamily
  | inet => exact hrule.mask hsame
  | inet6 => exact hrule.mask6

/-- **One rule keeps the tiling** if it is ignored or in range. -/
theorem summaryStep_ok (h : InSummary family n summary) (hn : n < intMax)
    (hfamily : family ≠ .unspec)
    (hgood : p.addr.family = family → p.Counted → p.InRange family) :
    ∃ summary', summaryStep family summary p = .ok summary'
      ∧ InSummary family (n + 1) summary' := by
  have hsame : InSummary family (n + 1) summary := h.mono (Nat.le_succ n)
  unfold summaryStep
  by_cases hother : p.addr.family = family
  · rw [if_neg (not_not.mpr hother)]
    by_cases hcounted : p.Counted
    · obtain ⟨hlo, hle, hhi, hmask⟩ := hgood hother hcounted
      rw [addItem_counted hcounted, hother]
      cases p.policyType with
      | accept =>
        obtain ⟨summary', hok, hinv⟩ := accept_ok h hlo hle hhi
        exact ⟨summary', hok, hinv.mono (Nat.le_succ n)⟩
      | reject => exact reject_ok h hn hfamily hlo hle hhi hmask
    · exact ⟨summary, addItem_ignored hcounted, hsame⟩
  · rw [if_pos hother]
    exact ⟨summary, rfl, hsame⟩

/-- Such a rule fails. -/
theorem summaryStep_zero (h : InSummary family n summary) (hrule : line.Rule p)
    (hbad : CountsPortZero family p) : summaryStep family summary p = .error .itemSplit := by
  obtain ⟨hsame, hcounted, hmax⟩ := hbad
  obtain ⟨-, -, -, hzero, -⟩ := parsePortRange_spec hrule.ports
  have hmin := (hzero (hrule.zero_iff.mp hmax)).1
  unfold summaryStep
  rw [if_neg (not_not.mpr hsame), addItem_counted hcounted, hmin, hmax]
  cases p.policyType with
  | accept =>
    show (policySummarySplit summary 1 0 >>= _) = _
    rw [split_zero h.covers]
    rfl
  | reject =>
    show (policySummarySplit summary 1 0 >>= _) = _
    rw [split_zero h.covers]
    rfl

end Step

/-! ## The whole policy -/

section Run

variable {family : Family} {policy : List AddrPolicy}

theorem inSummary_create : InSummary family 0 policySummaryCreate := by
  refine ⟨⟨rfl, by decide, rfl⟩, fun _ item hitem => ?_⟩
  rw [List.mem_singleton.mp hitem]
  exact Nat.zero_le _

/-- A run over rules that are ignored or in range. -/
theorem run_ok (hfamily : family ≠ .unspec)
    (hgood : ∀ p ∈ policy, p.addr.family = family → p.Counted → p.InRange family) :
    ∀ {n : ℕ} {summary : List SummaryItem}, InSummary family n summary →
    n + policy.length ≤ intMax →
    ∃ summary', policy.foldlM (summaryStep family) summary = .ok summary'
      ∧ InSummary family (n + policy.length) summary' := by
  induction policy with
  | nil => exact fun h _ => ⟨_, rfl, h⟩
  | cons p policy ih =>
    intro n summary h hlen
    rw [List.length_cons] at hlen ⊢
    obtain ⟨next, hstep, hnext⟩ :=
      summaryStep_ok h (by omega) hfamily (hgood p List.mem_cons_self)
    obtain ⟨summary', hrun, hinv⟩ :=
      ih (fun q hq => hgood q (List.mem_cons_of_mem _ hq)) hnext (by omega)
    refine ⟨summary', ?_, ?_⟩
    · rw [List.foldlM_cons, hstep]
      exact hrun
    · rw [show n + (policy.length + 1) = n + 1 + policy.length by omega]
      exact hinv

/-- A run over one that is stops there. -/
theorem run_zero (hfamily : family ≠ .unspec)
    (hrules : ∀ p ∈ policy, ∃ line : PolicyLine, line.Rule p)
    (hbad : ∃ p ∈ policy, CountsPortZero family p) :
    ∀ {n : ℕ} {summary : List SummaryItem}, InSummary family n summary →
    n + policy.length ≤ intMax →
    policy.foldlM (summaryStep family) summary = .error .itemSplit := by
  induction policy with
  | nil =>
    obtain ⟨p, hp, -⟩ := hbad
    exact absurd hp List.not_mem_nil
  | cons p policy ih =>
    intro n summary h hlen
    rw [List.length_cons] at hlen
    obtain ⟨line, hrule⟩ := hrules p List.mem_cons_self
    rw [List.foldlM_cons]
    by_cases hp : CountsPortZero family p
    · rw [summaryStep_zero h hrule hp]
      rfl
    · obtain ⟨next, hstep, hnext⟩ := summaryStep_ok h (by omega) hfamily (hrule.inRange hp hfamily)
      rw [hstep]
      have hbad : ∃ q ∈ policy, CountsPortZero family q := by
        obtain ⟨q, hq, hzero⟩ := hbad
        rcases List.mem_cons.mp hq with rfl | hq
        · exact absurd hzero hp
        · exact ⟨q, hq, hzero⟩
      exact ih (fun q hq => hrules q (List.mem_cons_of_mem _ hq)) hbad hnext (by omega)

end Run

/-! ## The text has a comma -/

section Text

theorem portRangeText_length {start stop : ℕ} (hstart : start ≤ 65535) (hstop : stop ≤ 65535) :
    (portRangeText start stop).length ≤ 11 := by
  have hlen : ∀ {n : ℕ}, n ≤ 65535 → (decimal n).length ≤ 5 := by
    intro n hn
    exact length_decimal_le (by omega) (by decide)
  have hfirst := hlen hstart
  have hlast := hlen hstop
  unfold portRangeText
  split
  · omega
  · rw [List.length_append, List.length_cons]
    omega

theorem summaryRanges_length {start : ℕ} {items : List SummaryItem} (hstart : start ≤ 65535)
    (h : ∀ item ∈ items, item.prtMin ≤ 65535 ∧ item.prtMax ≤ 65535) :
    ∀ r ∈ summaryRanges start items, r.2.length ≤ 11 := by
  induction items generalizing start with
  | nil => exact fun r hr => absurd hr List.not_mem_nil
  | cons item items ih =>
    have htail : ∀ item ∈ items, item.prtMin ≤ 65535 ∧ item.prtMax ≤ 65535 :=
      fun x hx => h x (List.mem_cons_of_mem _ hx)
    have hone := portRangeText_length hstart (h item List.mem_cons_self).2
    cases items with
    | nil =>
      intro r hr
      rw [summaryRanges, List.mem_singleton] at hr
      rw [hr]
      exact hone
    | cons next items =>
      intro r hr
      rw [summaryRanges] at hr
      split at hr
      next =>
        rcases List.mem_cons.mp hr with rfl | hr
        · exact hone
        · exact ih (htail next List.mem_cons_self).1 htail r hr
      next => exact ih hstart htail r hr

/-- A text that is too long for one range has a comma behind the first. -/
theorem truncateSummary_ok {texts : List Bytes} (h : ∀ t ∈ texts, t.length ≤ 11)
    (hlong : maxSummaryText < ([byte ','].intercalate texts).length) :
    ∃ out, truncateSummary ([byte ','].intercalate texts) = .ok out := by
  have hcomma : byte ',' ∈ ([byte ','].intercalate texts).take (maxSummaryText + 1) := by
    match texts with
    | [] => exact absurd hlong (by decide)
    | [t] =>
      have hone := h t List.mem_cons_self
      have hmax : maxSummaryText = 993 := rfl
      rw [List.intercalate_singleton] at hlong
      omega
    | t :: u :: texts =>
      have hone := h t List.mem_cons_self
      have hshort : (t ++ [byte ',']).length ≤ maxSummaryText + 1 := by
        have hmax : maxSummaryText = 993 := rfl
        rw [List.length_append, List.length_singleton]
        omega
      rw [List.intercalate_cons_cons, List.take_append, List.take_of_length_le hshort]
      simp
  unfold truncateSummary
  have hne : ((([byte ','].intercalate texts).take (maxSummaryText + 1)).reverse.dropWhile
      fun b => b ≠ byte ',') ≠ [] := by
    rw [Ne, List.dropWhile_eq_nil_iff]
    intro hall
    have hno := hall (byte ',') (List.mem_reverse.mpr hcomma)
    simp at hno
  obtain ⟨b, front, hfront⟩ := List.exists_cons_of_ne_nil hne
  rw [hfront]
  exact ⟨_, rfl⟩

/-- The text can be written for every tiling. -/
theorem summaryText_ok {summary : List SummaryItem} (h : Covers 1 65536 summary) :
    ∃ text, summaryText (summaryRanges 1 summary) = .ok text := by
  have hports : ∀ item ∈ summary, item.prtMin ≤ 65535 ∧ item.prtMax ≤ 65535 := by
    intro item hitem
    have hlast := h.last_lt hitem
    have hfirst := (h.first_le hitem).2
    omega
  have hlen : ∀ t ∈ ((summaryRanges 1 summary).filter fun r => r.1 = true).map Prod.snd,
      t.length ≤ 11 := by
    intro t ht
    obtain ⟨r, hr, rfl⟩ := List.mem_map.mp ht
    exact summaryRanges_length (by decide) hports r (List.mem_filter.mp hr).1
  unfold summaryText
  dsimp only
  split
  · exact ⟨_, rfl⟩
  · split
    · exact ⟨_, rfl⟩
    · split
      next hlong =>
        obtain ⟨out, hout⟩ := truncateSummary_ok hlen hlong.2
        rw [rangesText, hout]
        exact ⟨_, rfl⟩
      next =>
        split
        · exact ⟨_, rfl⟩
        · exact ⟨_, rfl⟩

end Text

/-! ## Which policies can be summarized -/

/-- No assertion fails, and the list is a tiling of all ports behind every rule. -/
def Summarizes (policy : List AddrPolicy) (family : Family) : Prop :=
  Passes (policySummarize policy family)
    ∧ ∀ done, done <+: policy → ∃ summary, policySummaryItems done family = .ok summary
      ∧ Covers 1 65536 summary

/-- No line for port zero has a rule of the family that is counted. -/
def NoPortZero (lines : List PolicyLine) (family : Family) : Prop :=
  ∀ line ∈ lines, IsPortZero line.portText → ∀ p ∈ line.rules, p.addr.family = family → ¬ p.Counted

theorem summarizes_iff {lines : List PolicyLine} {policy : List AddrPolicy} {family : Family}
    (h : producePolicy lines = some policy) (hfamily : family ≠ .unspec) :
    Summarizes policy family ↔ NoPortZero lines family := by
  obtain ⟨rfl, hlen⟩ := producePolicy_eq h
  have hrules : ∀ p ∈ lines.flatMap PolicyLine.rules, ∃ line : PolicyLine, line.Rule p := by
    intro p hp
    obtain ⟨line, -, hmem⟩ := List.mem_flatMap.mp hp
    exact ⟨line, PolicyLine.rule_of_mem hmem⟩
  constructor
  · rintro ⟨⟨text, htext⟩, -⟩ line hline hzero p hp hsame hcounted
    have hmem : p ∈ lines.flatMap PolicyLine.rules := List.mem_flatMap.mpr ⟨line, hline, hp⟩
    have hbad : CountsPortZero family p :=
      ⟨hsame, hcounted, (PolicyLine.rule_of_mem hp).zero_iff.mpr hzero⟩
    have herror := run_zero hfamily hrules ⟨p, hmem, hbad⟩ inSummary_create (by omega)
    obtain ⟨summary, hitems, -⟩ := bind_eq_ok.mp htext
    rw [policySummaryItems, herror] at hitems
    cases hitems
  · intro hnone
    have hgood : ∀ p ∈ lines.flatMap PolicyLine.rules,
        p.addr.family = family → p.Counted → p.InRange family := by
      intro p hp
      obtain ⟨line, hline, hmem⟩ := List.mem_flatMap.mp hp
      have hrule := PolicyLine.rule_of_mem hmem
      refine hrule.inRange ?_ hfamily
      rintro ⟨hsame, hcounted, hmax⟩
      exact hnone line hline (hrule.zero_iff.mp hmax) p hmem hsame hcounted
    -- the same for every rule that has been added so far
    have hbefore : ∀ done, done <+: lines.flatMap PolicyLine.rules →
        ∃ summary, policySummaryItems done family = .ok summary ∧ Covers 1 65536 summary := by
      intro done hdone
      have hshort := hdone.length_le
      obtain ⟨summary, hrun, hinv⟩ :=
        run_ok hfamily (fun p hp => hgood p (hdone.subset hp)) inSummary_create (by omega)
      exact ⟨summary, hrun, hinv.covers⟩
    refine ⟨?_, hbefore⟩
    obtain ⟨summary, hrun, hcovers⟩ := hbefore _ (List.prefix_refl _)
    have hne : summary ≠ [] := by
      rintro rfl
      have hno : 1 = 65536 := hcovers
      omega
    obtain ⟨text, htext⟩ := summaryText_ok hcovers
    exact ⟨text, bind_eq_ok.mpr ⟨summary, hrun,
      bind_eq_ok.mpr ⟨(), torAssert_eq_ok.mpr hne, htext⟩⟩⟩

/-- **When a policy can be summarized.** For every policy that is read from text, and every exit
policy of a router, `policy_summarize` runs through with a tiling behind each rule exactly if no
counted rule is for port zero. -/
theorem policy_summarizes_iff (family : Family) (hfamily : family ≠ .unspec) :
    (∀ (lines : List PolicyLine) (policy : List AddrPolicy), producePolicy lines = some policy →
      (Summarizes policy family ↔ NoPortZero lines family))
    ∧ ∀ (L : RouterLib (List AddrPolicy)) (tokens : List DirectoryToken)
      (router : RouterInfo (List AddrPolicy)), ParsesPolicies L →
      routerFields L tokens = some router → router.exitPolicy.length ≤ intMax →
      ∃ lines : List PolicyLine, lines.map PolicyLine.tok = findAllExitpolicy tokens
        ∧ (∀ line ∈ lines, line.extendedStar = false)
        ∧ (Summarizes router.exitPolicy family ↔ NoPortZero lines family) := by
  refine ⟨fun lines policy h => summarizes_iff h hfamily, fun L tokens router hL h hlen => ?_⟩
  obtain ⟨lines, hlines, hplain, hpolicy⟩ := descriptor_policy hL h hlen
  exact ⟨lines, hlines, hplain, summarizes_iff hpolicy hfamily⟩

/-- The line `reject *:25` of a descriptor, or another of its kind. -/
def rejectLine (arg : String) : PolicyLine where
  tok := { tp := .reject, args := [cstring arg] }
  isPolicy := .inr (.inr (.inl rfl))
  extendedStar := false

/-- Mail is rejected. -/
theorem policy_summarizes_mail :
    ∃ policy, producePolicy [rejectLine "*:25", rejectLine "private:0"] = some policy
      ∧ Summarizes policy .inet := by
  have hsome : (producePolicy [rejectLine "*:25", rejectLine "private:0"]).isSome = true := by
    decide
  obtain ⟨policy, hpolicy⟩ := Option.isSome_iff_exists.mp hsome
  refine ⟨policy, hpolicy, ((policy_summarizes_iff .inet (by decide)).1 _ _ hpolicy).mpr ?_⟩
  unfold NoPortZero
  decide

/-- **A line for port zero aborts the summary.** -/
theorem port_zero_aborts :
    ∃ policy, producePolicy [rejectLine "*:0"] = some policy
      ∧ policySummarize policy .inet = .error .itemSplit ∧ ¬ Summarizes policy .inet := by
  have hpolicy : producePolicy [rejectLine "*:0"] = some [⟨.reject, false, 0, .inet 0, 1, 0⟩] := by
    decide
  have herror : policySummarize [⟨.reject, false, 0, .inet 0, 1, 0⟩] .inet = .error .itemSplit := by
    decide
  refine ⟨_, hpolicy, herror, ?_⟩
  rintro ⟨⟨text, htext⟩, -⟩
  rw [herror] at htext
  cases htext

end Dittor.Tor

import Mathlib
import Dittor.Lib.Signed
import Dittor.Tor.GeneralExit
import Dittor.Tor.SummaryMeaning

/-!
# Short policies (`policies.c`)

What a client has of an exit policy is its summary. `parse_short_policy` reads the ranges of ports
in it one by one, and `compare_tor_addr_to_short_policy` looks for one that holds the port.

The ranges that a summary prints are all read back, if its text is not too long
(`parseShortPolicy_join`). A text that is cut at a comma is that of the first ranges
(`truncateSummary_join`).
-/

namespace Dittor.Tor

open Dittor.Lib

/-! ## Reading a short policy -/

/-- `tor_parse_ulong` in base ten with `next`: a number within the limits, and what stands behind
what was read. -/
def torParseUlongNext (min max : ℕ) (s : Bytes) : Option ℕ × Bytes :=
  match strtol s with
  | none => (none, s)
  | some (r, next) =>
    let value : ℤ := if -18446744073709551616 < r ∧ r < 0 then r + 18446744073709551616 else r
    (if value < min ∨ (max : ℤ) < value then none else some value.toNat, next)

/-- `short_policy_entry_t` -/
structure ShortPolicyEntry where
  minPort : ℕ
  maxPort : ℕ
deriving DecidableEq, Repr

/-- `short_policy_t` -/
structure ShortPolicy where
  isAccept : Bool
  entries : List ShortPolicyEntry
deriving DecidableEq, Repr

/-- What a round of the loop over the text finds. -/
inductive ShortPolicyRound where
  | entry (e : ShortPolicyEntry) (next : Bytes)
  /-- `skip_ent` -/
  | skip (next : Option Bytes)
  /-- `bad_ent` -/
  | bad
deriving DecidableEq, Repr

/-- One round. -/
def shortPolicyRound (summary : Bytes) : ShortPolicyRound :=
  match torParseUlongNext 1 65535 summary with
  | (none, next) =>
    if ∀ b ∈ summary.head?, isDigit b = false ∨ b = byte ',' then .skip (behind ',' next) else .bad
  | (some low, []) => .entry ⟨low, low⟩ []
  | (some low, b :: next) =>
    if b = byte ',' then .entry ⟨low, low⟩ next
    else if b = byte '-' then
      match torParseUlongNext low 65535 next with
      | (none, _) => .bad
      | (some high, []) => .entry ⟨low, high⟩ []
      | (some high, b :: next) => if b = byte ',' then .entry ⟨low, high⟩ next else .bad
    else .bad

/-- `MAX_EXITPOLICY_SUMMARY_LEN` -/
def maxExitpolicySummaryLen : ℕ := 1000

theorem length_readDecimal {s next : Bytes} {n : ℕ} (h : readDecimal s = some (n, next)) :
    next.length < s.length := by
  unfold readDecimal at h
  split at h
  next => cases h
  next hne =>
    obtain ⟨-, rfl⟩ := Prod.mk.inj (Option.some.inj h)
    have hlen := congrArg List.length (List.takeWhile_append_dropWhile (p := isDigit) (l := s))
    rw [List.length_append] at hlen
    have hpos := List.length_pos_of_ne_nil hne
    omega

theorem length_strtol {s next : Bytes} {r : ℤ} (h : strtol s = some (r, next)) :
    next.length < s.length := by
  have hle := (List.dropWhile_suffix isSpace (l := s)).length_le
  unfold strtol at h
  split at h
  next => cases h
  next b rest hdrop =>
    rw [hdrop, List.length_cons] at hle
    have hread : ∃ n t, readDecimal t = some (n, next) ∧ t.length ≤ rest.length + 1 := by
      split_ifs at h
      all_goals
        obtain ⟨⟨n, t⟩, hn, hr⟩ := Option.map_eq_some_iff.mp h
        obtain ⟨-, rfl⟩ := Prod.mk.inj hr
        exact ⟨n, _, hn, by simp⟩
    obtain ⟨n, t, ht, hlen⟩ := hread
    have hlt := length_readDecimal ht
    omega

theorem length_torParseUlongNext {min max : ℕ} {s next : Bytes} {r : Option ℕ}
    (h : torParseUlongNext min max s = (r, next)) :
    next.length ≤ s.length ∧ (r.isSome = true → next.length < s.length) := by
  unfold torParseUlongNext at h
  split at h
  next =>
    obtain ⟨rfl, rfl⟩ := Prod.mk.inj h
    exact ⟨le_rfl, fun hsome => absurd hsome (by decide)⟩
  next z t ht =>
    obtain ⟨-, rfl⟩ := Prod.mk.inj h
    have hlt := length_strtol ht
    exact ⟨hlt.le, fun _ => hlt⟩

theorem length_behind {c : Char} {s next : Bytes} (h : behind c s = some next) :
    next.length < s.length := by
  unfold behind at h
  split at h
  next hmem =>
    obtain rfl := Option.some.inj h
    have hpos := List.length_pos_of_mem hmem
    have hle := (List.dropWhile_suffix (fun b => b ≠ byte c) (l := s)).length_le
    rw [List.length_drop]
    omega
  next => cases h

/-- Each round leaves a shorter text. -/
theorem shortPolicyRound_shorter {summary next : Bytes}
    (h : (∃ e, shortPolicyRound summary = .entry e next)
      ∨ shortPolicyRound summary = .skip (some next)) : next.length < summary.length := by
  unfold shortPolicyRound at h
  split at h
  next rest hread =>
    split at h
    next =>
      have hskip : behind ',' rest = some next := by
        rcases h with ⟨e, he⟩ | h
        · cases he
        · exact ShortPolicyRound.skip.inj h
      exact (length_behind hskip).trans_le (length_torParseUlongNext hread).1
    next => rcases h with ⟨e, he⟩ | he <;> cases he
  next low hread =>
    have hlt := (length_torParseUlongNext hread).2 rfl
    rcases h with ⟨e, he⟩ | he
    · cases he
      exact hlt
    · cases he
  next low b rest hread =>
    have hlt := (length_torParseUlongNext hread).2 rfl
    rw [List.length_cons] at hlt
    split_ifs at h
    · rcases h with ⟨e, he⟩ | he
      · cases he
        omega
      · cases he
    · split at h
      next => rcases h with ⟨e, he⟩ | he <;> cases he
      next high hhigh =>
        rcases h with ⟨e, he⟩ | he
        · cases he
          exact hlt.trans_le' (Nat.zero_le _)
        · cases he
      next high b' rest' hhigh =>
        have hlt' := (length_torParseUlongNext hhigh).2 rfl
        rw [List.length_cons] at hlt'
        split_ifs at h
        · rcases h with ⟨e, he⟩ | he
          · cases he
            omega
          · cases he
        · rcases h with ⟨e, he⟩ | he <;> cases he
    · rcases h with ⟨e, he⟩ | he <;> cases he

/-- The loop over the text, behind these entries. -/
def shortPolicyEntries (entries : List ShortPolicyEntry) (summary : Bytes) :
    Option (List ShortPolicyEntry) :=
  if summary = [] then some entries
  else if entries.length = maxExitpolicySummaryLen then none
  else
    match _hround : shortPolicyRound summary with
    | .entry e next => shortPolicyEntries (entries ++ [e]) next
    | .skip (some next) => shortPolicyEntries entries next
    | .skip none => some entries
    | .bad => none
termination_by summary.length
decreasing_by
  · exact shortPolicyRound_shorter (.inl ⟨e, _hround⟩)
  · exact shortPolicyRound_shorter (.inr _hround)

/-- `parse_short_policy` -/
def parseShortPolicy (summary : Bytes) : Option ShortPolicy := do
  let (isAccept, text) ←
    if (cstring "accept ").isPrefixOf summary then some (true, summary.drop 7)
    else if (cstring "reject ").isPrefixOf summary then some (false, summary.drop 7)
    else none
  let entries ← shortPolicyEntries [] text
  if entries = [] then none else some ⟨isAccept, entries⟩

/-- `tor_addr_is_loopback` -/
def torAddrIsLoopback : TorAddr → Bool
  | .unspec => false
  | .inet a => torAddrToIpv4h (.inet a) &&& 0xff000000 = 0x7f000000
  | .inet6 a => in6Addr32 a 0 = 0 ∧ in6Addr32 a 1 = 0 ∧ in6Addr32 a 2 = 0 ∧ in6Addr32 a 3 = 1

/-- The port is in one of the ranges. -/
def ShortPolicy.hasPort (policy : ShortPolicy) (port : ℕ) : Bool :=
  policy.entries.any fun e => e.minPort ≤ port && port ≤ e.maxPort

/-- `accept_` -/
def ShortPolicy.accepts (policy : ShortPolicy) (port : ℕ) : Bool :=
  if policy.hasPort port then policy.isAccept else !policy.isAccept

/-- An address that is refused before the policy is looked at. -/
def refusesInternal (clientRejectInternalAddresses : Bool) (addr : Option TorAddr) : Bool :=
  clientRejectInternalAddresses && (addr.filter fun a => !torAddrIsNull a).any fun a =>
    torAddrIsInternal a false || torAddrIsLoopback a

/-- `compare_tor_addr_to_short_policy`, for a port other than `0` -/
def compareTorAddrToShortPolicy (clientRejectInternalAddresses : Bool) (addr : Option TorAddr)
    (port : ℕ) (policy : ShortPolicy) : AddrPolicyResult :=
  if refusesInternal clientRejectInternalAddresses addr then .rejected
  else if policy.accepts port then .probablyAccepted
  else .rejected

/-! ## What was printed is read back -/

/-- An entry as `policy_summarize` prints it. -/
def ShortPolicyEntry.text (e : ShortPolicyEntry) : Bytes := portRangeText e.minPort e.maxPort

/-- A range of ports. -/
def ShortPolicyEntry.InRange (e : ShortPolicyEntry) : Prop :=
  1 ≤ e.minPort ∧ e.minPort ≤ e.maxPort ∧ e.maxPort ≤ 65535

section Join

variable {e : ShortPolicyEntry} {entries done : List ShortPolicyEntry}

/-- A printed port is read back. -/
theorem torParseUlongNext_decimal {min max n : ℕ} {rest : Bytes} (hmin : min ≤ n) (hmax : n ≤ max)
    (hrest : ∀ b ∈ rest.head?, isDigit b = false) :
    torParseUlongNext min max (decimal n ++ rest) = (some n, rest) := by
  have hread : strtol (decimal n ++ rest) = some ((n : ℤ), rest) := by
    have hnat : decimalInt (n : ℤ) = decimal n := if_neg (by omega)
    rw [← hnat]
    exact strtol_decimalInt n hrest
  unfold torParseUlongNext
  rw [hread]
  dsimp only
  rw [if_neg (by omega : ¬ (-18446744073709551616 < (n : ℤ) ∧ (n : ℤ) < 0)), if_neg (by omega)]
  rfl

/-- One entry is read back, whatever follows behind a comma. -/
theorem shortPolicyRound_text (h : e.InRange) {tail : Bytes}
    (htail : ∀ b ∈ tail.head?, b = byte ',') :
    shortPolicyRound (e.text ++ tail) = .entry e tail.tail := by
  obtain ⟨hlo, hle, hhi⟩ := h
  have hplain : ∀ b ∈ tail.head?, isDigit b = false := by
    intro b hb
    rw [htail b hb]
    decide
  unfold shortPolicyRound ShortPolicyEntry.text portRangeText
  by_cases hsame : e.minPort = e.maxPort
  · rw [if_pos hsame, torParseUlongNext_decimal hlo (hle.trans hhi) hplain]
    have he : (⟨e.minPort, e.minPort⟩ : ShortPolicyEntry) = e := by
      rw [ShortPolicyEntry.mk.injEq]
      exact ⟨rfl, hsame⟩
    cases tail with
    | nil =>
      dsimp only
      rw [he]
      rfl
    | cons b tail =>
      dsimp only
      rw [if_pos (htail b rfl), he]
      rfl
  · rw [if_neg hsame, List.append_assoc, List.cons_append, torParseUlongNext_decimal hlo
      (hle.trans hhi) (by intro b hb; rw [← Option.some.inj hb]; decide)]
    dsimp only
    rw [if_neg (by decide), if_pos rfl, torParseUlongNext_decimal hle hhi hplain]
    cases tail with
    | nil => rfl
    | cons b tail =>
      dsimp only
      rw [if_pos (htail b rfl)]
      rfl

theorem text_ne_nil : e.text ≠ [] := by
  unfold ShortPolicyEntry.text portRangeText
  split
  · exact decimal_ne_nil _
  · simp

/-- **All entries are read back.** -/
theorem shortPolicyEntries_join (hin : ∀ e ∈ entries, e.InRange)
    (hlen : done.length + entries.length ≤ maxExitpolicySummaryLen) :
    shortPolicyEntries done ([byte ','].intercalate (entries.map ShortPolicyEntry.text))
      = some (done ++ entries) := by
  induction entries generalizing done with
  | nil =>
    rw [shortPolicyEntries]
    simp
  | cons e entries ih =>
    have hhead := hin e List.mem_cons_self
    have htail := fun e he => hin e (List.mem_cons_of_mem _ he)
    rw [List.length_cons] at hlen
    -- what stands behind the entry
    obtain ⟨tail, htext, hcomma, hrest⟩ : ∃ tail,
        [byte ','].intercalate ((e :: entries).map ShortPolicyEntry.text) = e.text ++ tail
          ∧ (∀ b ∈ tail.head?, b = byte ',')
          ∧ tail.tail = [byte ','].intercalate (entries.map ShortPolicyEntry.text) := by
      cases entries with
      | nil => exact ⟨[], by simp, by simp, by simp⟩
      | cons e' entries =>
        refine ⟨byte ',' :: [byte ','].intercalate ((e' :: entries).map ShortPolicyEntry.text), ?_,
          ?_, rfl⟩
        · rw [List.map_cons, List.map_cons, List.intercalate_cons_cons]
          simp
        · simp
    have hne : e.text ++ tail ≠ [] := by
      simp [text_ne_nil]
    have hroom : (done ++ [e]).length + entries.length ≤ maxExitpolicySummaryLen := by
      rw [List.length_append, List.length_singleton]
      omega
    have hnext := ih htail hroom
    rw [htext, shortPolicyEntries, if_neg hne, if_neg (by omega)]
    split
    next e' next hround =>
      rw [shortPolicyRound_text hhead hcomma] at hround
      obtain ⟨rfl, rfl⟩ := ShortPolicyRound.entry.inj hround
      rw [hrest, hnext, List.append_assoc, List.singleton_append]
    all_goals
      next hround =>
        rw [shortPolicyRound_text hhead hcomma] at hround
        cases hround

/-- Each entry but the last takes a byte and a comma at least. -/
theorem length_join (entries : List ShortPolicyEntry) :
    2 * entries.length
      ≤ ([byte ','].intercalate (entries.map ShortPolicyEntry.text)).length + 1 := by
  induction entries with
  | nil => simp
  | cons e entries ih =>
    have hpos : 1 ≤ e.text.length := List.length_pos_of_ne_nil text_ne_nil
    cases entries with
    | nil =>
      rw [List.map_singleton, List.intercalate_singleton, List.length_singleton]
      omega
    | cons e' entries =>
      rw [List.map_cons, List.map_cons, List.intercalate_cons_cons, ← List.map_cons]
      simp only [List.length_append, List.length_cons, List.length_nil] at ih ⊢
      omega

/-- **A joined text is parsed** into its entries, if it is not too long. -/
theorem parseShortPolicy_join (isAccept : Bool) (hin : ∀ e ∈ entries, e.InRange)
    (hne : entries ≠ [])
    (hlen : ([byte ','].intercalate (entries.map ShortPolicyEntry.text)).length ≤ maxSummaryText) :
    parseShortPolicy (cstring (if isAccept then "accept " else "reject ")
        ++ [byte ','].intercalate (entries.map ShortPolicyEntry.text))
      = some ⟨isAccept, entries⟩ := by
  have hcount := length_join entries
  have hmax : maxSummaryText = 993 := rfl
  have hloop : shortPolicyEntries [] ([byte ','].intercalate (entries.map ShortPolicyEntry.text))
      = some entries := by
    have hroom : ([] : List ShortPolicyEntry).length + entries.length ≤ maxExitpolicySummaryLen := by
      show 0 + entries.length ≤ 1000
      omega
    exact shortPolicyEntries_join hin hroom
  unfold parseShortPolicy
  generalize [byte ','].intercalate (entries.map ShortPolicyEntry.text) = text at hloop
  cases isAccept with
  | true =>
    have hword : (cstring "accept ").isPrefixOf (cstring "accept " ++ text) = true :=
      List.isPrefixOf_iff_prefix.mpr (List.prefix_append _ _)
    have hdrop : (cstring "accept " ++ text).drop 7 = text := rfl
    rw [if_pos rfl, if_pos hword, hdrop]
    show (shortPolicyEntries [] text).bind _ = _
    rw [hloop, Option.bind_some, if_neg hne]
  | false =>
    have hother : (cstring "accept ").isPrefixOf (cstring "reject " ++ text) = false := rfl
    have hword : (cstring "reject ").isPrefixOf (cstring "reject " ++ text) = true :=
      List.isPrefixOf_iff_prefix.mpr (List.prefix_append _ _)
    have hdrop : (cstring "reject " ++ text).drop 7 = text := rfl
    rw [if_neg Bool.false_ne_true, if_neg (by rw [hother]; decide), if_pos hword, hdrop]
    show (shortPolicyEntries [] text).bind _ = _
    rw [hloop, Option.bind_some, if_neg hne]

/-- A printed entry has no comma in it. -/
theorem comma_notMem_text : byte ',' ∉ e.text := by
  have hdecimal : ∀ n, byte ',' ∉ decimal n := by
    intro n hmem
    exact absurd (isDigit_of_mem_decimal hmem) (by decide)
  unfold ShortPolicyEntry.text portRangeText
  split
  · exact hdecimal _
  · rw [List.mem_append, List.mem_cons]
    rintro (hmem | heq | hmem)
    · exact hdecimal _ hmem
    · exact absurd heq (by decide)
    · exact hdecimal _ hmem

end Join

/-- What stands in front of a separator in a joined text is what the first fields join to. -/
theorem intercalate_cut {sep : UInt8} {fields : List Bytes} {front tail : Bytes}
    (hclean : ∀ f ∈ fields, sep ∉ f) (h : [sep].intercalate fields = front ++ sep :: tail) :
    ∃ k, 0 < k ∧ k < fields.length ∧ front = [sep].intercalate (fields.take k) := by
  induction fields generalizing front with
  | nil => simp at h
  | cons f fields ih =>
    have hf := hclean f List.mem_cons_self
    cases fields with
    | nil =>
      rw [List.intercalate_singleton] at h
      exact absurd (by rw [h]; simp) hf
    | cons f' fields =>
      rw [List.intercalate_cons_cons, List.append_assoc, List.singleton_append,
        List.append_eq_append_iff] at h
      rcases h with ⟨more, hfront, hrest⟩ | ⟨more, hfront, hrest⟩
      · cases more with
        | nil =>
          refine ⟨1, by omega, by simp, ?_⟩
          rw [hfront]
          simp
        | cons b more =>
          obtain ⟨rfl, hmore⟩ := List.cons.inj hrest
          obtain ⟨k, hpos, hk, rfl⟩ := ih (fun g hg => hclean g (List.mem_cons_of_mem _ hg)) hmore
          obtain ⟨k, rfl⟩ := Nat.exists_eq_succ_of_ne_zero hpos.ne'
          refine ⟨k + 2, by omega, by simpa using hk, ?_⟩
          rw [hfront, List.take_succ_cons, List.take_succ_cons, List.take_succ_cons,
            List.intercalate_cons_cons]
          simp
      · -- the separator would be in the first field
        cases more with
        | nil =>
          refine ⟨1, by omega, by simp, ?_⟩
          rw [List.append_nil] at hfront
          rw [← hfront]
          simp
        | cons b more =>
          obtain ⟨rfl, -⟩ := List.cons.inj hrest
          exact absurd (by rw [hfront]; simp) hf

/-- **A text that is cut** is that of the first entries, and short enough. -/
theorem truncateSummary_join {entries : List ShortPolicyEntry} {out : Bytes}
    (h : truncateSummary ([byte ','].intercalate (entries.map ShortPolicyEntry.text)) = .ok out) :
    ∃ k, 0 < k ∧ k < entries.length ∧ out.length ≤ maxSummaryText
      ∧ out = [byte ','].intercalate ((entries.take k).map ShortPolicyEntry.text) := by
  unfold truncateSummary at h
  split at h
  next => cases h
  next b front hdrop =>
    obtain rfl := Except.ok.inj h
    have hb : b = byte ',' := by
      have hhead := List.head?_dropWhile_not (fun b => decide (b ≠ byte ','))
        (([byte ','].intercalate (entries.map ShortPolicyEntry.text)).take (maxSummaryText + 1)).reverse
      rw [hdrop] at hhead
      simpa using hhead
    obtain ⟨skipped, hskipped⟩ := hdrop ▸ List.dropWhile_suffix (fun b => decide (b ≠ byte ','))
      (l := (([byte ','].intercalate (entries.map ShortPolicyEntry.text)).take
        (maxSummaryText + 1)).reverse)
    have htake := congrArg List.reverse hskipped
    rw [List.reverse_reverse, List.reverse_append, List.reverse_cons, List.append_assoc,
      List.singleton_append, hb] at htake
    have hlen := congrArg List.length htake
    rw [List.length_append, List.length_cons, List.length_take] at hlen
    have htext := (List.take_append_drop (maxSummaryText + 1)
      ([byte ','].intercalate (entries.map ShortPolicyEntry.text))).symm
    rw [← htake, List.append_assoc, List.cons_append] at htext
    have hclean : ∀ f ∈ entries.map ShortPolicyEntry.text, byte ',' ∉ f := by
      intro f hf
      obtain ⟨e, -, rfl⟩ := List.mem_map.mp hf
      exact comma_notMem_text
    obtain ⟨k, hpos, hk, hfront⟩ := intercalate_cut hclean htext
    rw [List.length_map] at hk
    exact ⟨k, hpos, hk, by omega, by rw [hfront, List.map_take]⟩

end Dittor.Tor

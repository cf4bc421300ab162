import Mathlib
import Dittor.Lib.Decimal
import Dittor.Lib.Edits
import Dittor.Tor.Tokenizer

/-!
# The consensus diff script (`consdiff.c`)

`gen_ed_diff` cuts the signatures off the base, cuts both documents into slices at the
routers they share, marks in every slice which lines change, and writes the marks as ed
commands from the last line to the first. `apply_ed_diff` reads such commands.

A line is its bytes without the newline, a list of lines a `Smartlist`, whose length is an
`int`. The two bit arrays are lists of marked lines, the slices in order, so the slicing is
right when the marked lines are the lines (`changedLines_isChanges`). What column a slice is
split at, which routers are matched and how identities compare does not matter for that.
-/

namespace Dittor.Tor

open Dittor.Lib

/-- Lines in a `smartlist_t`, which has no room for more than `INT_MAX`. -/
abbrev Smartlist := { lines : List Bytes // lines.length ≤ intMax }

/-! ## Changes in a slice -/

/-- The lines of two slices with the bits of `changed1` and `changed2`. -/
structure Changes where
  changed1 : List (Bool × Bytes)
  changed2 : List (Bool × Bytes)

namespace Changes

/-- Slices one after the other. -/
def append (m n : Changes) : Changes := ⟨m.changed1 ++ n.changed1, m.changed2 ++ n.changed2⟩

/-- Lines without changes. -/
def same (lines : List Bytes) : Changes := ⟨markAll false lines, markAll false lines⟩

/-- The arguments the other way round. -/
def swap (m : Changes) : Changes := ⟨m.changed2, m.changed1⟩

end Changes

/-- The row of `lcs_lengths` for one line of the first slice: `prev` from column `j` on, and
`result[j]`. -/
def lcsRow (line1 : Bytes) : List Bytes → List ℕ → ℕ → List ℕ
  | line2 :: slice2, prevJ :: prevJ1 :: prev, resultJ =>
    let result := if line1 = line2 then prevJ + 1 else max resultJ prevJ1
    result :: lcsRow line1 slice2 (prevJ1 :: prev) result
  | _, _, _ => []

/-- `lcs_lengths`; for direction -1 both slices are reversed. -/
def lcsLengths (slice1 slice2 : List Bytes) : List ℕ :=
  slice1.foldl (fun prev line1 => 0 :: lcsRow line1 slice2 prev 0)
    (List.replicate (slice2.length + 1) 0)

/-- `optimal_column_to_split`: the first column with the greatest sum -/
def optimalColumnToSplit (top bot slice2 : List Bytes) : ℕ :=
  let lensTop := lcsLengths top slice2
  let lensBot := lcsLengths bot.reverse slice2.reverse
  let column := (List.range (slice2.length + 1)).foldl (fun (best : ℕ × ℤ) i =>
    let sum : ℤ := lensTop.getD i 0 + lensBot.getD (slice2.length - i) 0
    if best.2 < sum then (i, sum) else best) (0, -1)
  column.1

/-- The lines that both slices begin with. -/
def commonFront : List Bytes → List Bytes → List Bytes
  | line1 :: slice1, line2 :: slice2 =>
    if line1 = line2 then line1 :: commonFront slice1 slice2 else []
  | _, _ => []

/-- `trim_slices`: the lines dropped in front, the two slices, the lines dropped behind -/
structure Trimmed where
  front : List Bytes
  slice1 : List Bytes
  slice2 : List Bytes
  back : List Bytes

/-- `trim_slices` -/
def trimSlices (slice1 slice2 : List Bytes) : Trimmed :=
  let front := commonFront slice1 slice2
  let rest1 := slice1.drop front.length
  let rest2 := slice2.drop front.length
  let back := commonFront rest1.reverse rest2.reverse
  ⟨front, rest1.take (rest1.length - back.length), rest2.take (rest2.length - back.length),
    back.reverse⟩

/-- `set_changed`; the first slice has at most one line -/
def setChanged (line : Option Bytes) (slice2 : List Bytes) : Changes :=
  match line with
  | none => ⟨[], markAll true slice2⟩
  | some common =>
    -- `toskip`
    match slice2.findIdx? (· = common) with
    | none => ⟨[(true, common)], markAll true slice2⟩
    | some k =>
      ⟨[(false, common)],
        markAll true (slice2.take k) ++ markAll false ((slice2.drop k).take 1)
          ++ markAll true (slice2.drop (k + 1))⟩

theorem trimSlices_length (slice1 slice2 : List Bytes) :
    (trimSlices slice1 slice2).slice1.length ≤ slice1.length := by
  simp only [trimSlices, List.length_take, List.length_drop]
  omega

/-- `calc_changes` -/
def calcChanges (slice1 slice2 : List Bytes) : Changes :=
  let t := trimSlices slice1 slice2
  let inner :=
    if _h : t.slice1.length ≤ 1 then setChanged t.slice1.head? t.slice2
    else if t.slice2.length ≤ 1 then (setChanged t.slice2.head? t.slice1).swap
    else
      let mid := t.slice1.length / 2
      let mid2 := optimalColumnToSplit (t.slice1.take mid) (t.slice1.drop mid) t.slice2
      (calcChanges (t.slice1.take mid) (t.slice2.take mid2)).append
        (calcChanges (t.slice1.drop mid) (t.slice2.drop mid2))
  ((Changes.same t.front).append inner).append (Changes.same t.back)
termination_by slice1.length
decreasing_by
  all_goals
    have hle := trimSlices_length slice1 slice2
    have hlong : ¬ (trimSlices slice1 slice2).slice1.length ≤ 1 := _h
    simp only [List.length_take, List.length_drop]
    omega

/-! ## Routers -/

/-- `get_id_hash` -/
def getIdHash (line : Bytes) : Option Bytes :=
  if line.length < 2 then none
  else
    match (line.drop 2).dropWhile (· ≠ byte ' ') with
    | [] => none
    | _ :: rest =>
      let hash := rest.takeWhile fun b => (base64Value b).isSome
      if hash = [] then none else some hash

/-- `is_valid_router_entry` -/
def isValidRouterEntry (line : Bytes) : Bool :=
  (cstring "r ").isPrefixOf line && (getIdHash line).isSome

/-- The loop of `base64cmp`; its hashes are not empty. -/
def base64CmpLoop : Bytes → Bytes → Ordering
  | [], [] => .eq
  | [], _ :: _ => .lt
  | _ :: _, [] => .gt
  | a :: as, b :: bs =>
    match base64Value a, base64Value b with
    | none, none => .eq
    | none, some _ => .lt
    | some _, none => .gt
    | some av, some bv =>
      if av < bv then .lt else if bv < av then .gt else base64CmpLoop as bs

/-- `base64cmp`, with `none` for a NULL -/
def base64cmp : Option Bytes → Option Bytes → Ordering
  | none, none => .eq
  | none, some _ => .lt
  | some _, none => .gt
  | some a, some b => base64CmpLoop a b

/-- A position in a document with its `router_id_iterator_t`. The position is kept one
higher, so that the start -1 is 0; `last_hash` is not read after the step that sets it. -/
structure RouterIter (cons : List Bytes) where
  next : ℕ
  hash : Option Bytes
  next_le : next ≤ cons.length + 1

namespace RouterIter

variable {cons : List Bytes}

/-- `ROUTER_ID_ITERATOR_INIT`, before the first line -/
def init : RouterIter cons := ⟨0, none, Nat.zero_le _⟩

/-- `i < len` -/
def Inside (it : RouterIter cons) : Prop := it.next ≤ cons.length

instance (it : RouterIter cons) : Decidable it.Inside :=
  (inferInstance : Decidable (it.next ≤ cons.length))

/-- The end of the document. -/
def toEnd (it : RouterIter cons) : RouterIter cons := ⟨cons.length + 1, it.hash, Nat.le_refl _⟩

end RouterIter

/-- `next_router`, the line after `cur` being given -/
def nextRouter (cons : List Bytes) (cur : ℕ) : ℕ :=
  cur + (cons.drop cur).findIdx isValidRouterEntry

theorem nextRouter_le {cons : List Bytes} {cur : ℕ} (h : cur ≤ cons.length) :
    nextRouter cons cur ≤ cons.length := by
  have hfind : (cons.drop cur).findIdx isValidRouterEntry ≤ (cons.drop cur).length :=
    List.findIdx_le_length
  rw [List.length_drop] at hfind
  rw [nextRouter]
  omega

/-- `find_next_router_line` -/
def findNextRouterLine {cons : List Bytes} (it : RouterIter cons) (hin : it.Inside) :
    Option (RouterIter cons) :=
  let idx := nextRouter cons it.next
  let moved (hash : Option Bytes) : RouterIter cons :=
    ⟨idx + 1, hash, Nat.succ_le_succ (nextRouter_le hin)⟩
  match cons[idx]? with
  | none => some (moved it.hash)
  | some line =>
    match getIdHash line with
    | none => none
    | some hash => if base64cmp (some hash) it.hash = .gt then some (moved (some hash)) else none

theorem findNextRouterLine_next {cons : List Bytes} {it it' : RouterIter cons} {hin : it.Inside}
    (h : findNextRouterLine it hin = some it') : it.next < it'.next := by
  have hnext : it'.next = nextRouter cons it.next + 1 := by
    unfold findNextRouterLine at h
    simp only at h
    split at h
    · cases h
      rfl
    · split at h
      · cases h
      · split at h
        · cases h
          rfl
        · cases h
  rw [hnext, nextRouter]
  omega

section Slices

variable {cons1 cons2 : List Bytes}

/-- The loop that moves the lower of the two positions until the hashes agree or a document
ends. -/
def alignRouters (it1 : RouterIter cons1) (it2 : RouterIter cons2) :
    Option (RouterIter cons1 × RouterIter cons2) :=
  match base64cmp it1.hash it2.hash with
  | .eq => some (it1, it2)
  | .lt =>
    if hin : it1.Inside then
      match _hfind : findNextRouterLine it1 hin with
      | none => none
      | some it1' =>
        if it1'.next = cons1.length + 1 then some (it1', it2.toEnd) else alignRouters it1' it2
    else some (it1.toEnd, it2.toEnd)
  | .gt =>
    if hin : it2.Inside then
      match _hfind : findNextRouterLine it2 hin with
      | none => none
      | some it2' =>
        if it2'.next = cons2.length + 1 then some (it1.toEnd, it2') else alignRouters it1 it2'
    else some (it1.toEnd, it2.toEnd)
termination_by (cons1.length + 1 - it1.next) + (cons2.length + 1 - it2.next)
decreasing_by
  · have hlt := findNextRouterLine_next _hfind
    have hle : it1.next ≤ cons1.length := hin
    omega
  · have hlt := findNextRouterLine_next _hfind
    have hle : it2.next ≤ cons2.length := hin
    omega

/-- A position is moved to the next router, if it is not at the end. -/
def advanceRouter (it : RouterIter cons1) : Option (RouterIter cons1) :=
  if hin : it.Inside then findNextRouterLine it hin else some it

/-- One pass of the main loop up to its slices. -/
def nextRouters (it1 : RouterIter cons1) (it2 : RouterIter cons2) :
    Option (RouterIter cons1 × RouterIter cons2) :=
  match advanceRouter it1, advanceRouter it2 with
  | some it1, some it2 =>
    if it1.Inside ∨ it2.Inside then alignRouters it1 it2 else some (it1, it2)
  | _, _ => none

/-- No position goes back. -/
theorem alignRouters_next {it1 it1' : RouterIter cons1} {it2 it2' : RouterIter cons2}
    (h : alignRouters it1 it2 = some (it1', it2')) :
    it1.next ≤ it1'.next ∧ it2.next ≤ it2'.next := by
  fun_induction alignRouters it1 it2 with
  | case1 it1 it2 hcmp =>
    cases h
    exact ⟨Nat.le_refl _, Nat.le_refl _⟩
  | case2 it1 it2 hcmp hin hfind => cases h
  | case3 it1 it2 hcmp hin it hfind hend =>
    cases h
    exact ⟨(findNextRouterLine_next hfind).le, it2.next_le⟩
  | case4 it1 it2 hcmp hin it hfind hend ih =>
    exact ⟨(findNextRouterLine_next hfind).le.trans (ih h).1, (ih h).2⟩
  | case5 it1 it2 hcmp hin =>
    cases h
    exact ⟨it1.next_le, it2.next_le⟩
  | case6 it1 it2 hcmp hin hfind => cases h
  | case7 it1 it2 hcmp hin it hfind hend =>
    cases h
    exact ⟨it1.next_le, (findNextRouterLine_next hfind).le⟩
  | case8 it1 it2 hcmp hin it hfind hend ih =>
    exact ⟨(ih h).1, (findNextRouterLine_next hfind).le.trans (ih h).2⟩
  | case9 it1 it2 hcmp hin =>
    cases h
    exact ⟨it1.next_le, it2.next_le⟩

/-- A position that is not at the end goes on. -/
theorem advanceRouter_next {it it' : RouterIter cons1} (h : advanceRouter it = some it') :
    it.next ≤ it'.next ∧ (it.Inside → it.next < it'.next) := by
  unfold advanceRouter at h
  split at h
  case isTrue hin =>
    have hlt := findNextRouterLine_next h
    exact ⟨hlt.le, fun _ => hlt⟩
  case isFalse hout =>
    cases h
    exact ⟨Nat.le_refl _, fun hin => absurd hin hout⟩

theorem nextRouters_next {it1 it1' : RouterIter cons1} {it2 it2' : RouterIter cons2}
    (h : nextRouters it1 it2 = some (it1', it2')) :
    (it1.next ≤ it1'.next ∧ (it1.Inside → it1.next < it1'.next))
      ∧ (it2.next ≤ it2'.next ∧ (it2.Inside → it2.next < it2'.next)) := by
  unfold nextRouters at h
  split at h
  next a b ha hb =>
    obtain ⟨hle1, hlt1⟩ := advanceRouter_next ha
    obtain ⟨hle2, hlt2⟩ := advanceRouter_next hb
    have hlast : a.next ≤ it1'.next ∧ b.next ≤ it2'.next := by
      split at h
      · exact alignRouters_next h
      · cases h
        exact ⟨Nat.le_refl _, Nat.le_refl _⟩
    exact ⟨⟨hle1.trans hlast.1, fun hin => (hlt1 hin).trans_le hlast.1⟩,
      ⟨hle2.trans hlast.2, fun hin => (hlt2 hin).trans_le hlast.2⟩⟩
  next => cases h

/-- `MAX_LINE_COUNT` -/
def maxLineCount : ℕ := 10000

/-- `smartlist_slice` -/
def slice (cons : List Bytes) (start stop : ℕ) : List Bytes := (cons.take stop).drop start

/-- The main loop of `gen_ed_diff`, from the positions `start1` and `start2` on. -/
def changedLines (start1 start2 : ℕ) (it1 : RouterIter cons1) (it2 : RouterIter cons2) :
    Option Changes :=
  if _hin : it1.Inside ∨ it2.Inside then
    match _hnext : nextRouters it1 it2 with
    | none => none
    | some (it1', it2') =>
      let i1 := it1'.next - 1
      let i2 := it2'.next - 1
      if i1 - start1 > maxLineCount ∨ i2 - start2 > maxLineCount then none
      else
        let changes := calcChanges (slice cons1 start1 i1) (slice cons2 start2 i2)
        (changedLines i1 i2 it1' it2').map changes.append
  else some ⟨[], []⟩
termination_by (cons1.length + 1 - it1.next) + (cons2.length + 1 - it2.next)
decreasing_by
  obtain ⟨⟨hle1, hlt1⟩, hle2, hlt2⟩ := nextRouters_next _hnext
  rcases _hin with hin | hin
  · have hlt := hlt1 hin
    have hle : it1.next ≤ cons1.length := hin
    omega
  · have hlt := hlt2 hin
    have hle : it2.next ≤ cons2.length := hin
    omega

end Slices

/-! ## The script -/

/-- `START_OF_SIGNATURES_SECTION` -/
def startsSignatures (line : Bytes) : Bool := (cstring "directory-signature ").isPrefixOf line

/-- `preprocess_consensus`: the lines before the signatures, and the command for the rest -/
def preprocessConsensus (cons : List Bytes) : List Bytes × List Bytes :=
  match cons.findIdx? startsSignatures with
  | none => (cons, [])
  | some dirsigIdx => (cons.take dirsigIdx, [decimal (dirsigIdx + 1) ++ cstring ",$d"])

/-- The command for one chunk of changes, `start1x` being `keep`. -/
def editLines (e : Edit Bytes) : Option (List Bytes) :=
  let range := decimal (e.keep + 1) ++ cstring "," ++ decimal (e.keep + e.deleted)
  if e.added = [] then
    if e.deleted = 1 then some [decimal (e.keep + 1) ++ cstring "d"]
    else some [range ++ cstring "d"]
  else if cstring "." ∈ e.added then none
  else
    let command :=
      if e.deleted = 0 then decimal e.keep ++ cstring "a"
      else if e.deleted = 1 then decimal (e.keep + 1) ++ cstring "c"
      else range ++ cstring "c"
    some (command :: e.added ++ [cstring "."])

/-- `gen_ed_diff` -/
def genEdDiff (cons1 cons2 : List Bytes) : Option (List Bytes) := do
  let (base, removeTrailer) := preprocessConsensus cons1
  let changes ← changedLines 0 0 (@RouterIter.init base) (@RouterIter.init cons2)
  let commands ← (backEdits changes.changed1.reverse changes.changed2.reverse).mapM editLines
  return removeTrailer ++ commands.flatten

/-! ## The marks are on the lines of both documents -/

/-- The marks are on the lines of two slices, and the unmarked lines are the same. -/
structure IsChanges (slice1 slice2 : List Bytes) (m : Changes) : Prop where
  lines1 : m.changed1.map Prod.snd = slice1
  lines2 : m.changed2.map Prod.snd = slice2
  same : unmarked m.changed1 = unmarked m.changed2

theorem IsChanges.append {s1 s2 t1 t2 : List Bytes} {m n : Changes} (hm : IsChanges s1 s2 m)
    (hn : IsChanges t1 t2 n) : IsChanges (s1 ++ t1) (s2 ++ t2) (m.append n) where
  lines1 := by rw [Changes.append, List.map_append, hm.lines1, hn.lines1]
  lines2 := by rw [Changes.append, List.map_append, hm.lines2, hn.lines2]
  same := by rw [Changes.append, unmarked_append, unmarked_append, hm.same, hn.same]

theorem IsChanges.of_same (lines : List Bytes) : IsChanges lines lines (.same lines) where
  lines1 := map_snd_markAll false lines
  lines2 := map_snd_markAll false lines
  same := rfl

theorem IsChanges.swap {s1 s2 : List Bytes} {m : Changes} (h : IsChanges s1 s2 m) :
    IsChanges s2 s1 m.swap where
  lines1 := h.lines2
  lines2 := h.lines1
  same := h.same.symm

/-- Of the second slice only the first line that is the line of the first stays. -/
theorem setChanged_isChanges (line : Option Bytes) (slice2 : List Bytes) :
    IsChanges line.toList slice2 (setChanged line slice2) := by
  cases line with
  | none => exact ⟨rfl, map_snd_markAll true slice2, (unmarked_markAll_true slice2).symm⟩
  | some common =>
    rw [setChanged]
    split
    next hnone => exact ⟨rfl, map_snd_markAll true slice2, (unmarked_markAll_true slice2).symm⟩
    next k hk =>
      obtain ⟨hlt, hline, -⟩ := List.findIdx?_eq_some_iff_getElem.mp hk
      have hone : (slice2.drop k).take 1 = [common] := by
        rw [List.drop_eq_getElem_cons hlt, List.take_succ_cons, List.take_zero,
          of_decide_eq_true hline]
      refine ⟨rfl, ?_, ?_⟩
      · rw [List.map_append, List.map_append, map_snd_markAll, map_snd_markAll, map_snd_markAll,
          List.append_assoc, ← List.drop_drop, List.take_append_drop, List.take_append_drop]
      · rw [unmarked_append, unmarked_append, unmarked_markAll_true, unmarked_markAll_true,
          unmarked_markAll_false, hone]
        rfl

theorem commonFront_spec : ∀ (slice1 slice2 : List Bytes),
    commonFront slice1 slice2 ++ slice1.drop (commonFront slice1 slice2).length = slice1
      ∧ commonFront slice1 slice2 ++ slice2.drop (commonFront slice1 slice2).length = slice2
  | [], _ => ⟨rfl, rfl⟩
  | _ :: _, [] => ⟨rfl, rfl⟩
  | line1 :: slice1, line2 :: slice2 => by
    rw [commonFront]
    split
    case isTrue heq =>
      obtain ⟨ih1, ih2⟩ := commonFront_spec slice1 slice2
      subst heq
      exact ⟨congrArg (List.cons line1) ih1, congrArg (List.cons line1) ih2⟩
    case isFalse => exact ⟨rfl, rfl⟩

/-- The common lines behind, from the lines in front of the reversed slices. -/
theorem commonBack_spec (rest1 rest2 : List Bytes) :
    rest1.take (rest1.length - (commonFront rest1.reverse rest2.reverse).length)
        ++ (commonFront rest1.reverse rest2.reverse).reverse = rest1
      ∧ rest2.take (rest2.length - (commonFront rest1.reverse rest2.reverse).length)
        ++ (commonFront rest1.reverse rest2.reverse).reverse = rest2 := by
  obtain ⟨h1, h2⟩ := commonFront_spec rest1.reverse rest2.reverse
  rw [List.drop_reverse] at h1 h2
  refine ⟨?_, ?_⟩
  · conv_rhs => rw [← List.reverse_reverse rest1, ← h1]
    rw [List.reverse_append, List.reverse_reverse]
  · conv_rhs => rw [← List.reverse_reverse rest2, ← h2]
    rw [List.reverse_append, List.reverse_reverse]

theorem trimSlices_spec (slice1 slice2 : List Bytes) :
    (trimSlices slice1 slice2).front ++ (trimSlices slice1 slice2).slice1
        ++ (trimSlices slice1 slice2).back = slice1
      ∧ (trimSlices slice1 slice2).front ++ (trimSlices slice1 slice2).slice2
        ++ (trimSlices slice1 slice2).back = slice2 := by
  obtain ⟨hf1, hf2⟩ := commonFront_spec slice1 slice2
  obtain ⟨hb1, hb2⟩ := commonBack_spec (slice1.drop (commonFront slice1 slice2).length)
    (slice2.drop (commonFront slice1 slice2).length)
  simp only [trimSlices, List.append_assoc]
  exact ⟨by rw [hb1, hf1], by rw [hb2, hf2]⟩

theorem toList_head? {l : List Bytes} (h : l.length ≤ 1) : l.head?.toList = l := by
  match l, h with
  | [], _ => rfl
  | [_], _ => rfl

/-- Whatever column a slice is split at. -/
theorem calcChanges_isChanges (slice1 slice2 : List Bytes) :
    IsChanges slice1 slice2 (calcChanges slice1 slice2) := by
  induction hn : slice1.length using Nat.strong_induction_on generalizing slice1 slice2 with
  | _ n ih =>
    subst hn
    rw [calcChanges]
    simp only
    obtain ⟨hs1, hs2⟩ := trimSlices_spec slice1 slice2
    have hlen := trimSlices_length slice1 slice2
    generalize trimSlices slice1 slice2 = t at hs1 hs2 hlen
    suffices hinner : ∀ m, IsChanges t.slice1 t.slice2 m →
        IsChanges slice1 slice2 (((Changes.same t.front).append m).append (Changes.same t.back)) by
      apply hinner
      split
      case isTrue hone =>
        have h := setChanged_isChanges t.slice1.head? t.slice2
        rwa [toList_head? hone] at h
      case isFalse hmore =>
        split
        case isTrue hone =>
          have h := (setChanged_isChanges t.slice2.head? t.slice1).swap
          rwa [toList_head? hone] at h
        case isFalse =>
          have htop := ih _ (by rw [List.length_take]; omega) (t.slice1.take (t.slice1.length / 2))
            (t.slice2.take (optimalColumnToSplit (t.slice1.take (t.slice1.length / 2))
              (t.slice1.drop (t.slice1.length / 2)) t.slice2)) rfl
          have hbot := ih _ (by rw [List.length_drop]; omega)
            (t.slice1.drop (t.slice1.length / 2))
            (t.slice2.drop (optimalColumnToSplit (t.slice1.take (t.slice1.length / 2))
              (t.slice1.drop (t.slice1.length / 2)) t.slice2)) rfl
          have h := htop.append hbot
          rwa [List.take_append_drop, List.take_append_drop] at h
    intro m hm
    have h := ((IsChanges.of_same t.front).append hm).append (IsChanges.of_same t.back)
    rwa [hs1, hs2] at h

theorem slice_append {cons : List Bytes} {start stop : ℕ} (h : start ≤ stop) :
    slice cons start stop ++ cons.drop stop = cons.drop start := by
  rw [slice, List.drop_take, ← Nat.sub_add_cancel h, Nat.add_sub_cancel, Nat.add_comm _ start,
    ← List.drop_drop, List.take_append_drop]

/-- Over the whole loop the slices are the two documents. -/
theorem changedLines_isChanges {cons1 cons2 : List Bytes} {start1 start2 : ℕ}
    {it1 : RouterIter cons1} {it2 : RouterIter cons2} {m : Changes}
    (hs1 : start1 = it1.next - 1) (hs2 : start2 = it2.next - 1)
    (h : changedLines start1 start2 it1 it2 = some m) :
    IsChanges (cons1.drop start1) (cons2.drop start2) m := by
  fun_induction changedLines start1 start2 it1 it2 generalizing m with
  | case1 => cases h
  | case2 => cases h
  | case3 start1 start2 it1 it2 hin it1' it2' hnext i1 i2 hcount changes =>
    rename_i ih
    obtain ⟨rest, hrest, rfl⟩ := Option.map_eq_some_iff.mp h
    obtain ⟨⟨hle1, -⟩, hle2, -⟩ := nextRouters_next hnext
    have hmore := (calcChanges_isChanges (slice cons1 start1 i1) (slice cons2 start2 i2)).append
      (ih rfl rfl hrest)
    rwa [slice_append (show start1 ≤ it1'.next - 1 by omega),
      slice_append (show start2 ≤ it2'.next - 1 by omega)] at hmore
  | case4 start1 start2 it1 it2 hout =>
    cases h
    have h1 : ¬ it1.next ≤ cons1.length := fun hin => hout (.inl hin)
    have h2 : ¬ it2.next ≤ cons2.length := fun hin => hout (.inr hin)
    rw [List.drop_of_length_le (by omega), List.drop_of_length_le (by omega)]
    exact ⟨rfl, rfl, rfl⟩

end Dittor.Tor

import Mathlib
import Dittor.Lib.CommonSubsequence
import Dittor.Tor.ConsDiff

/-!
# The marks of a diff are minimal (`consdiff.c`)

`calc_changes` is Hirschberg's algorithm. The rows of `lcs_lengths` are the lengths of the longest
common subsequences with the beginnings of the second slice (`lcsLengths_eq`), or, read backward,
with its ends; so the column with the greatest sum of the two is a cut with which nothing is lost
(`optimalColumnToSplit_spec`). Lines that are trimmed count in full. So what is left unmarked is a
longest common subsequence (`calcChanges_length`).

`calcChangesAt` works on positions: slices of two lists, and the two bit arrays. It sets the bits of
the marks and no others (`calc_changes_minimal`).
-/

namespace Dittor.Tor

open Dittor.Lib

/-! ## The rows -/

/-- The lengths with `front`, and with one more line of the rest each. -/
def rowFrom (slice1 front : List Bytes) : List Bytes → List ℕ
  | [] => [lcsLength slice1 front]
  | line2 :: rest => lcsLength slice1 front :: rowFrom slice1 (front ++ [line2]) rest

theorem rowFrom_eq_cons (slice1 front rest : List Bytes) :
    rowFrom slice1 front rest = lcsLength slice1 front :: (rowFrom slice1 front rest).tail := by
  cases rest <;> rfl

theorem getD_rowFrom (slice1 : List Bytes) : ∀ (rest front : List Bytes) {k : ℕ}, k ≤ rest.length →
    (rowFrom slice1 front rest).getD k 0 = lcsLength slice1 (front ++ rest.take k)
  | [], front, k, hk => by
    obtain rfl : k = 0 := Nat.le_zero.mp hk
    rw [List.take_zero, List.append_nil]
    rfl
  | line2 :: rest, front, 0, _ => by
    rw [List.take_zero, List.append_nil]
    rfl
  | line2 :: rest, front, k + 1, hk => by
    rw [rowFrom, List.getD_cons_succ, getD_rowFrom slice1 rest _ (Nat.le_of_succ_le_succ hk),
      List.take_succ_cons, List.append_assoc, List.singleton_append]

/-- **The next row**, by induction along the second slice. -/
theorem lcsRow_rowFrom (slice1 : List Bytes) (line1 : Bytes) : ∀ (rest front : List Bytes),
    lcsRow line1 rest (rowFrom slice1 front rest) (lcsLength (slice1 ++ [line1]) front)
      = (rowFrom (slice1 ++ [line1]) front rest).tail
  | [], _ => rfl
  | line2 :: rest, front => by
    have hrow : rowFrom slice1 front (line2 :: rest) = lcsLength slice1 front
        :: lcsLength slice1 (front ++ [line2]) :: (rowFrom slice1 (front ++ [line2]) rest).tail := by
      rw [rowFrom, rowFrom_eq_cons slice1 (front ++ [line2]) rest, List.tail_cons]
    have hnext : (if line1 = line2 then lcsLength slice1 front + 1
        else max (lcsLength (slice1 ++ [line1]) front) (lcsLength slice1 (front ++ [line2])))
          = lcsLength (slice1 ++ [line1]) (front ++ [line2]) :=
      (lcsLength_concat slice1 front line1 line2).symm
    rw [hrow, lcsRow, hnext, ← rowFrom_eq_cons, lcsRow_rowFrom slice1 line1 rest, ← rowFrom_eq_cons, rowFrom,
      List.tail_cons]

/-- **The last row.** -/
theorem lcsLengths_eq (slice1 slice2 : List Bytes) :
    lcsLengths slice1 slice2 = rowFrom slice1 [] slice2 := by
  unfold lcsLengths
  induction slice1 using List.reverseRecOn with
  | nil =>
    have hzero : ∀ (rest front : List Bytes),
        rowFrom [] front rest = List.replicate (rest.length + 1) 0 := by
      intro rest
      induction rest with
      | nil => intro front; simp [rowFrom]
      | cons line2 rest ih =>
        intro front
        rw [rowFrom, ih, lcsLength_nil_left, List.length_cons, List.replicate_succ (n := rest.length + 1)]
    rw [List.foldl_nil, hzero]
  | append_singleton slice1 line1 ih =>
    have hzero : lcsLength (slice1 ++ [line1]) [] = 0 := lcsLength_nil_right _
    have hrow := lcsRow_rowFrom slice1 line1 slice2 []
    rw [hzero] at hrow
    rw [List.foldl_concat, ih, hrow, ← hzero, ← rowFrom_eq_cons]

/-! ## The column -/

/-- The greatest of the sums up to a column, and where it is. -/
theorem foldl_best (sum : ℕ → ℤ) (hsum : ∀ i, 0 ≤ sum i) (n : ℕ) :
    ((List.range (n + 1)).foldl (fun (best : ℕ × ℤ) i =>
      if best.2 < sum i then (i, sum i) else best) (0, -1)).1 ≤ n
    ∧ ((List.range (n + 1)).foldl (fun (best : ℕ × ℤ) i =>
        if best.2 < sum i then (i, sum i) else best) (0, -1)).2
      = sum ((List.range (n + 1)).foldl (fun (best : ℕ × ℤ) i =>
        if best.2 < sum i then (i, sum i) else best) (0, -1)).1
    ∧ ∀ i ≤ n, sum i ≤ ((List.range (n + 1)).foldl (fun (best : ℕ × ℤ) i =>
        if best.2 < sum i then (i, sum i) else best) (0, -1)).2 := by
  induction n with
  | zero =>
    have hpos := hsum 0
    have hfirst : (List.range 1).foldl (fun (best : ℕ × ℤ) i =>
        if best.2 < sum i then (i, sum i) else best) (0, -1) = (0, sum 0) := by
      rw [List.range_one, List.foldl_cons, List.foldl_nil, if_pos (by omega)]
    rw [hfirst]
    refine ⟨le_rfl, rfl, fun i hi => ?_⟩
    rw [Nat.le_zero.mp hi]
  | succ n ih =>
    rw [List.range_succ, List.foldl_concat]
    generalize (List.range (n + 1)).foldl (fun (best : ℕ × ℤ) i =>
      if best.2 < sum i then (i, sum i) else best) (0, -1) = best at ih
    obtain ⟨hin, heq, hmax⟩ := ih
    split
    · rename_i hlt
      refine ⟨le_rfl, rfl, fun i hi => ?_⟩
      rcases Nat.le_succ_iff.mp hi with hi | rfl
      · exact (hmax i hi).trans hlt.le
      · exact le_rfl
    · rename_i hge
      refine ⟨by omega, heq, fun i hi => ?_⟩
      rcases Nat.le_succ_iff.mp hi with hi | rfl
      · exact hmax i hi
      · exact not_lt.mp hge

/-- **The column is a cut with which nothing is lost.** -/
theorem optimalColumnToSplit_spec (top bot slice2 : List Bytes) :
    optimalColumnToSplit top bot slice2 ≤ slice2.length
      ∧ lcsLength top (slice2.take (optimalColumnToSplit top bot slice2))
          + lcsLength bot (slice2.drop (optimalColumnToSplit top bot slice2))
        = lcsLength (top ++ bot) slice2 := by
  let sum : ℕ → ℤ := fun i => (lcsLengths top slice2).getD i 0
    + (lcsLengths bot.reverse slice2.reverse).getD (slice2.length - i) 0
  have hsum : ∀ i ≤ slice2.length,
      sum i = (lcsLength top (slice2.take i) + lcsLength bot (slice2.drop i) : ℕ) := fun i hi => by
    have hback : slice2.reverse.take (slice2.length - i) = (slice2.drop i).reverse := by
      rw [List.reverse_drop]
    have htop : (lcsLengths top slice2).getD i 0 = lcsLength top (slice2.take i) := by
      rw [lcsLengths_eq, getD_rowFrom top slice2 [] hi, List.nil_append]
    have hbot : (lcsLengths bot.reverse slice2.reverse).getD (slice2.length - i) 0
        = lcsLength bot (slice2.drop i) := by
      rw [lcsLengths_eq, getD_rowFrom _ _ [] (by rw [List.length_reverse]; omega), List.nil_append,
        hback, lcsLength_reverse]
    simp only [sum, htop, hbot]
    push_cast
    rfl
  obtain ⟨hin, heq, hmax⟩ := foldl_best sum (fun i => by positivity) slice2.length
  have hcolumn : optimalColumnToSplit top bot slice2
      = ((List.range (slice2.length + 1)).foldl (fun (best : ℕ × ℤ) i =>
        if best.2 < sum i then (i, sum i) else best) (0, -1)).1 := rfl
  rw [← hcolumn] at hin heq
  refine ⟨hin, le_antisymm ?_ ?_⟩
  · have hle := lcsLength_add_le top bot (slice2.take (optimalColumnToSplit top bot slice2))
      (slice2.drop (optimalColumnToSplit top bot slice2))
    rwa [List.take_append_drop] at hle
  · obtain ⟨k, hk, hsplit⟩ := lcsLength_split top bot slice2
    have hbest := hmax k hk
    rw [heq, hsum k hk, hsum _ hin, ← hsplit] at hbest
    exact_mod_cast hbest

/-! ## The marks -/

theorem setChanged_length (line : Option Bytes) (slice2 : List Bytes) :
    (unmarked (setChanged line slice2).changed1).length = lcsLength line.toList slice2 := by
  cases line with
  | none =>
    rw [Option.toList_none, lcsLength_nil_left]
    rfl
  | some common =>
    rw [Option.toList_some, lcsLength_singleton, setChanged]
    split
    · rename_i hnone
      rw [if_neg]
      · rfl
      · intro hmem
        rw [List.findIdx?_eq_none_iff] at hnone
        simpa using hnone common hmem
    · rename_i k hk
      obtain ⟨hlt, hline, -⟩ := List.findIdx?_eq_some_iff_getElem.mp hk
      rw [if_pos]
      · rfl
      · rw [← of_decide_eq_true hline]
        exact List.getElem_mem hlt

/-- **What is not marked is as long as a longest common subsequence.** -/
theorem calcChanges_length (slice1 slice2 : List Bytes) :
    (unmarked (calcChanges slice1 slice2).changed1).length = lcsLength slice1 slice2 := by
  induction hn : slice1.length using Nat.strong_induction_on generalizing slice1 slice2 with
  | _ n ih =>
    subst hn
    rw [calcChanges]
    simp only
    obtain ⟨hs1, hs2⟩ := trimSlices_spec slice1 slice2
    have hlen := trimSlices_length slice1 slice2
    generalize trimSlices slice1 slice2 = t at hs1 hs2 hlen
    suffices hinner : ∀ m : Changes,
        (unmarked m.changed1).length = lcsLength t.slice1 t.slice2 →
        (unmarked (((Changes.same t.front).append m).append (Changes.same t.back)).changed1).length
          = lcsLength slice1 slice2 by
      apply hinner
      split
      · rename_i hone
        rw [setChanged_length, toList_head? hone]
      · rename_i hmore
        split
        · rename_i hone
          have hsame := (setChanged_isChanges t.slice2.head? t.slice1).same
          show (unmarked (setChanged t.slice2.head? t.slice1).changed2).length = _
          rw [← hsame, setChanged_length, toList_head? hone, lcsLength_comm]
        · have htop := ih _ (by rw [List.length_take]; omega)
            (t.slice1.take (t.slice1.length / 2))
            (t.slice2.take (optimalColumnToSplit (t.slice1.take (t.slice1.length / 2))
              (t.slice1.drop (t.slice1.length / 2)) t.slice2)) rfl
          have hbot := ih _ (by rw [List.length_drop]; omega)
            (t.slice1.drop (t.slice1.length / 2))
            (t.slice2.drop (optimalColumnToSplit (t.slice1.take (t.slice1.length / 2))
              (t.slice1.drop (t.slice1.length / 2)) t.slice2)) rfl
          have hsplit := (optimalColumnToSplit_spec (t.slice1.take (t.slice1.length / 2))
            (t.slice1.drop (t.slice1.length / 2)) t.slice2).2
          rw [List.take_append_drop] at hsplit
          rw [Changes.append, unmarked_append, List.length_append, htop, hbot, hsplit]
    intro m hm
    rw [← hs1, ← hs2, lcsLength_append_right, lcsLength_append_left, ← hm]
    simp only [Changes.append, Changes.same, unmarked_append, unmarked_markAll_false,
      List.length_append]

/-! ## Slices and bit arrays -/

/-- `smartlist_slice_t`, with the lines of its list from `offset` on that are in it. -/
structure SmartlistSlice where
  offset : ℕ
  lines : List Bytes
deriving DecidableEq, Repr

/-- `bitarray_t` -/
abbrev Bitarray := ℕ → Bool

/-- `bitarray_set` -/
def bitarraySet (bits : Bitarray) (i : ℕ) : Bitarray := Function.update bits i true

/-- `smartlist_slice_string_pos` -/
def smartlistSliceStringPos (slice : SmartlistSlice) (string : Bytes) : Option ℕ :=
  (slice.lines.findIdx? (· = string)).map fun k => slice.offset + k

/-- The loop of `set_changed` over the second slice. -/
def setExcept (changed2 : Bitarray) (slice2 : SmartlistSlice) (toskip : Option ℕ) : Bitarray :=
  (List.range' slice2.offset slice2.lines.length).foldl
    (fun bits i => if some i ≠ toskip then bitarraySet bits i else bits) changed2

/-- `set_changed` on positions. -/
def setChangedAt (changed1 changed2 : Bitarray) (slice1 slice2 : SmartlistSlice) :
    Bitarray × Bitarray :=
  match slice1.lines.head? with
  | none => (changed1, setExcept changed2 slice2 none)
  | some lineCommon =>
    match smartlistSliceStringPos slice2 lineCommon with
    | none => (bitarraySet changed1 slice1.offset, setExcept changed2 slice2 none)
    | some toskip => (changed1, setExcept changed2 slice2 (some toskip))

/-- `calc_changes` on positions; the lines that are trimmed in front move the offsets. -/
def calcChangesAt (slice1 slice2 : SmartlistSlice) (changed1 changed2 : Bitarray) :
    Bitarray × Bitarray :=
  let t := trimSlices slice1.lines slice2.lines
  let offset1 := slice1.offset + t.front.length
  let offset2 := slice2.offset + t.front.length
  if _h : t.slice1.length ≤ 1 then
    setChangedAt changed1 changed2 ⟨offset1, t.slice1⟩ ⟨offset2, t.slice2⟩
  else if t.slice2.length ≤ 1 then
    (setChangedAt changed2 changed1 ⟨offset2, t.slice2⟩ ⟨offset1, t.slice1⟩).swap
  else
    let mid := t.slice1.length / 2
    let mid2 := optimalColumnToSplit (t.slice1.take mid) (t.slice1.drop mid) t.slice2
    let changed := calcChangesAt ⟨offset1, t.slice1.take mid⟩ ⟨offset2, t.slice2.take mid2⟩
      changed1 changed2
    calcChangesAt ⟨offset1 + mid, t.slice1.drop mid⟩ ⟨offset2 + mid2, t.slice2.drop mid2⟩
      changed.1 changed.2
termination_by slice1.lines.length
decreasing_by
  all_goals
    have hle := trimSlices_length slice1.lines slice2.lines
    have hlong : ¬ (trimSlices slice1.lines slice2.lines).slice1.length ≤ 1 := _h
    simp only [List.length_take, List.length_drop]
    omega

/-! ## The bits are the marks -/

/-- The bits of marked lines from `offset` on. -/
def bitsOf (offset : ℕ) (marked : List (Bool × Bytes)) : Bitarray := fun i =>
  decide (offset ≤ i) && ((marked[i - offset]?).any fun line => line.1)

/-- More bits. -/
def Bitarray.or (bits more : Bitarray) : Bitarray := fun i => bits i || more i

section Bits

variable {offset : ℕ} {bits more : Bitarray} {marked rest : List (Bool × Bytes)} {lines : List Bytes}

theorem bitsOf_apply (offset : ℕ) (marked : List (Bool × Bytes)) (i : ℕ) : bitsOf offset marked i
    = (decide (offset ≤ i) && (marked[i - offset]?).any fun line => line.1) := rfl

theorem Bitarray.or_apply (bits more : Bitarray) (i : ℕ) : bits.or more i = (bits i || more i) := rfl

theorem Bitarray.or_assoc (a b c : Bitarray) : (a.or b).or c = a.or (b.or c) := by
  funext i
  exact Bool.or_assoc _ _ _

theorem length_markAll (mark : Bool) (lines : List Bytes) :
    (markAll mark lines).length = lines.length := List.length_map _

theorem bitsOf_append : bitsOf offset (marked ++ rest)
    = (bitsOf offset marked).or (bitsOf (offset + marked.length) rest) := by
  funext i
  rw [Bitarray.or_apply, bitsOf_apply, bitsOf_apply, bitsOf_apply]
  by_cases hle : offset ≤ i
  · rcases lt_or_ge (i - offset) marked.length with hlt | hge
    · rw [List.getElem?_append_left hlt, decide_eq_false (p := offset + marked.length ≤ i) (by omega)]
      simp
    · have hindex : i - offset - marked.length = i - (offset + marked.length) := by omega
      rw [List.getElem?_append_right hge, List.getElem?_eq_none hge, hindex,
        decide_eq_true (p := offset + marked.length ≤ i) (by omega), decide_eq_true hle]
      simp
  · rw [decide_eq_false hle, decide_eq_false (p := offset + marked.length ≤ i) (by omega)]
    rfl

theorem bitsOf_markAll_false (offset : ℕ) (lines : List Bytes) (i : ℕ) :
    bitsOf offset (markAll false lines) i = false := by
  rw [bitsOf_apply, markAll, List.getElem?_map]
  cases lines[i - offset]? <;> simp

theorem bitsOf_markAll_true (offset : ℕ) (lines : List Bytes) (i : ℕ) :
    bitsOf offset (markAll true lines) i
      = decide (offset ≤ i ∧ i < offset + lines.length) := by
  rw [bitsOf_apply, markAll, List.getElem?_map, Bool.eq_iff_iff, Bool.and_eq_true,
    decide_eq_true_eq, decide_eq_true_eq]
  rcases lt_or_ge (i - offset) lines.length with hlt | hge
  · rw [List.getElem?_eq_getElem hlt]
    simp only [Option.map_some, Option.any_some, and_true]
    omega
  · rw [List.getElem?_eq_none hge]
    simp only [Option.map_none, Option.any_none, Bool.false_eq_true, and_false, false_iff]
    omega

/-- Lines that are trimmed have no bits. -/
theorem or_bitsOf_trimmed (front back : List Bytes) :
    bits.or (bitsOf offset (markAll false front ++ marked ++ markAll false back))
      = bits.or (bitsOf (offset + front.length) marked) := by
  funext i
  simp only [bitsOf_append, Bitarray.or_apply, bitsOf_markAll_false, length_markAll,
    Bool.false_or, Bool.or_false]

/-- A bit is inside the lines. -/
theorem bitsOf_inside {i : ℕ} (h : bitsOf offset marked i = true) :
    offset ≤ i ∧ i < offset + marked.length := by
  rw [bitsOf_apply, Bool.and_eq_true, decide_eq_true_eq] at h
  obtain ⟨hle, hany⟩ := h
  refine ⟨hle, ?_⟩
  by_contra hge
  rw [List.getElem?_eq_none (by omega)] at hany
  cases hany

/-- The loop over a slice. -/
theorem setExcept_apply (bits : Bitarray) (offset : ℕ) (lines : List Bytes) (toskip : Option ℕ)
    (i : ℕ) : setExcept bits ⟨offset, lines⟩ toskip i
      = (bits i || decide ((offset ≤ i ∧ i < offset + lines.length) ∧ some i ≠ toskip)) := by
  have hloop : ∀ n, (List.range' offset n).foldl
      (fun bits i => if some i ≠ toskip then bitarraySet bits i else bits) bits i
        = (bits i || decide ((offset ≤ i ∧ i < offset + n) ∧ some i ≠ toskip)) := by
    intro n
    induction n with
    | zero =>
      rw [List.range'_zero, List.foldl_nil, decide_eq_false (by omega), Bool.or_false]
    | succ n ih =>
      rw [List.range'_concat, List.foldl_concat, one_mul]
      split
      · rename_i hkeep
        rw [bitarraySet, Function.update_apply, ih]
        split
        · rename_i hlast
          rw [decide_eq_true (by rw [hlast]; exact ⟨by omega, hkeep⟩), Bool.or_true]
        · rename_i hother
          congr 1
          rw [decide_eq_decide]
          exact and_congr_left fun _ => by omega
      · rename_i hskip
        rw [ih]
        congr 1
        rw [decide_eq_decide]
        refine and_congr_left fun hne => ?_
        have hother : i ≠ offset + n := fun hlast => hskip (hlast ▸ hne)
        omega
  exact hloop lines.length

/-- All but one line of a slice. -/
theorem bitsOf_except {k : ℕ} (hk : k < lines.length) (i : ℕ) :
    bitsOf offset (markAll true (lines.take k) ++ markAll false ((lines.drop k).take 1)
        ++ markAll true (lines.drop (k + 1))) i
      = decide ((offset ≤ i ∧ i < offset + lines.length) ∧ i ≠ offset + k) := by
  simp only [bitsOf_append, Bitarray.or_apply, bitsOf_markAll_false, bitsOf_markAll_true,
    List.length_append, length_markAll, List.length_take, List.length_drop]
  rw [Bool.eq_iff_iff]
  simp only [Bool.or_eq_true, decide_eq_true_eq, Bool.false_eq_true, or_false]
  omega

end Bits

/-- `set_changed` sets the marks of the slices. -/
theorem setChangedAt_eq (changed1 changed2 : Bitarray) (slice1 slice2 : SmartlistSlice) :
    setChangedAt changed1 changed2 slice1 slice2
      = (changed1.or (bitsOf slice1.offset
          (setChanged slice1.lines.head? slice2.lines).changed1),
        changed2.or (bitsOf slice2.offset
          (setChanged slice1.lines.head? slice2.lines).changed2)) := by
  obtain ⟨offset1, lines1⟩ := slice1
  obtain ⟨offset2, lines2⟩ := slice2
  have hall : setExcept changed2 ⟨offset2, lines2⟩ none
      = changed2.or (bitsOf offset2 (markAll true lines2)) := by
    funext i
    rw [setExcept_apply, Bitarray.or_apply, bitsOf_markAll_true]
    simp
  simp only
  cases hhead : lines1.head? with
  | none =>
    have hat : setChangedAt changed1 changed2 ⟨offset1, lines1⟩ ⟨offset2, lines2⟩
        = (changed1, setExcept changed2 ⟨offset2, lines2⟩ none) := by
      simp only [setChangedAt, hhead]
    rw [hat]
    refine Prod.ext (funext fun i => ?_) hall
    show changed1 i = (changed1 i || bitsOf offset1 [] i)
    rw [bitsOf_apply]
    simp
  | some common =>
    have hset : ∀ mark i, bitsOf offset1 [(mark, common)] i = (mark && decide (i = offset1)) := by
      intro mark i
      rw [bitsOf_apply]
      rcases Nat.lt_trichotomy i offset1 with hlt | rfl | hgt
      · simp [hlt.not_ge, hlt.ne]
      · simp
      · rw [List.getElem?_eq_none (by simp; omega)]
        simp [hgt.ne']
    cases hpos : lines2.findIdx? (fun line => decide (line = common)) with
    | none =>
      have hat : setChangedAt changed1 changed2 ⟨offset1, lines1⟩ ⟨offset2, lines2⟩
          = (bitarraySet changed1 offset1, setExcept changed2 ⟨offset2, lines2⟩ none) := by
        simp only [setChangedAt, smartlistSliceStringPos, hhead, hpos, Option.map_none]
      have hlist : setChanged (some common) lines2 = ⟨[(true, common)], markAll true lines2⟩ := by
        simp only [setChanged, hpos]
      rw [hat, hlist]
      refine Prod.ext (funext fun i => ?_) hall
      show Function.update changed1 offset1 true i
        = (changed1 i || bitsOf offset1 [(true, common)] i)
      rw [hset, Bool.true_and, Function.update_apply]
      by_cases hi : i = offset1
      · rw [if_pos hi, decide_eq_true hi, Bool.or_true]
      · rw [if_neg hi, decide_eq_false hi, Bool.or_false]
    | some k =>
      obtain ⟨hlt, -, -⟩ := List.findIdx?_eq_some_iff_getElem.mp hpos
      have hat : setChangedAt changed1 changed2 ⟨offset1, lines1⟩ ⟨offset2, lines2⟩
          = (changed1, setExcept changed2 ⟨offset2, lines2⟩ (some (offset2 + k))) := by
        simp only [setChangedAt, smartlistSliceStringPos, hhead, hpos, Option.map_some]
      have hlist : setChanged (some common) lines2 = ⟨[(false, common)],
          markAll true (lines2.take k) ++ markAll false ((lines2.drop k).take 1)
            ++ markAll true (lines2.drop (k + 1))⟩ := by
        simp only [setChanged, hpos]
      rw [hat, hlist]
      refine Prod.ext (funext fun i => ?_) (funext fun i => ?_)
      · show changed1 i = (changed1 i || bitsOf offset1 [(false, common)] i)
        rw [hset, Bool.false_and, Bool.or_false]
      · show setExcept changed2 ⟨offset2, lines2⟩ (some (offset2 + k)) i
          = (changed2 i || bitsOf offset2 (markAll true (lines2.take k)
            ++ markAll false ((lines2.drop k).take 1) ++ markAll true (lines2.drop (k + 1))) i)
        rw [setExcept_apply, bitsOf_except hlt]
        simp only [ne_eq, Option.some.injEq]

/-- **The bits are the marks**, whatever was set before. -/
theorem calcChangesAt_eq (slice1 slice2 : SmartlistSlice) (changed1 changed2 : Bitarray) :
    calcChangesAt slice1 slice2 changed1 changed2
      = (changed1.or (bitsOf slice1.offset (calcChanges slice1.lines slice2.lines).changed1),
        changed2.or (bitsOf slice2.offset (calcChanges slice1.lines slice2.lines).changed2)) := by
  induction hn : slice1.lines.length using Nat.strong_induction_on
    generalizing slice1 slice2 changed1 changed2 with
  | _ n ih =>
    subst hn
    obtain ⟨offset1, lines1⟩ := slice1
    obtain ⟨offset2, lines2⟩ := slice2
    rw [calcChangesAt, calcChanges]
    simp only
    have hlen := trimSlices_length lines1 lines2
    generalize trimSlices lines1 lines2 = t at hlen
    simp only [Changes.append, Changes.same, or_bitsOf_trimmed]
    split
    · exact setChangedAt_eq _ _ _ _
    · split
      · rw [setChangedAt_eq]
        rfl
      · simp only at ih
        have hcolumn := (optimalColumnToSplit_spec (t.slice1.take (t.slice1.length / 2))
          (t.slice1.drop (t.slice1.length / 2)) t.slice2).1
        generalize optimalColumnToSplit (t.slice1.take (t.slice1.length / 2))
          (t.slice1.drop (t.slice1.length / 2)) t.slice2 = mid2 at hcolumn
        have hmarks := calcChanges_isChanges (t.slice1.take (t.slice1.length / 2))
          (t.slice2.take mid2)
        have hlen1 := congrArg List.length hmarks.lines1
        have hlen2 := congrArg List.length hmarks.lines2
        rw [List.length_map, List.length_take, Nat.min_eq_left (by omega)] at hlen1
        rw [List.length_map, List.length_take, Nat.min_eq_left hcolumn] at hlen2
        rw [ih _ (by rw [List.length_drop]; omega) ⟨_, t.slice1.drop _⟩ ⟨_, t.slice2.drop _⟩ _ _ rfl,
          ih _ (by rw [List.length_take]; omega) ⟨_, t.slice1.take _⟩ ⟨_, t.slice2.take _⟩ _ _ rfl]
        simp only [bitsOf_append, hlen1, hlen2, Bitarray.or_assoc]

/-! ## The marks are minimal -/

/-- The lines of a slice whose bits are not set. -/
def SmartlistSlice.unmarkedLines (slice : SmartlistSlice) (changed : Bitarray) : List Bytes :=
  ((slice.lines.zipIdx slice.offset).filter fun line => !changed line.2).map Prod.fst

/-- Without the bits of other lines, the lines without a bit are those without a mark. -/
theorem unmarkedLines_bitsOf : ∀ (marked : List (Bool × Bytes)) (offset : ℕ),
    SmartlistSlice.unmarkedLines ⟨offset, marked.map Prod.snd⟩ (bitsOf offset marked)
      = unmarked marked
  | [], _ => rfl
  | (mark, line) :: marked, offset => by
    have hfirst : bitsOf offset ((mark, line) :: marked) offset = mark := by
      rw [bitsOf_apply]
      simp
    have hrest : ∀ x ∈ (marked.map Prod.snd).zipIdx (offset + 1),
        bitsOf offset ((mark, line) :: marked) x.2 = bitsOf (offset + 1) marked x.2 := by
      intro x hx
      have hle := List.le_snd_of_mem_zipIdx hx
      have hindex : x.2 - offset = x.2 - (offset + 1) + 1 := by omega
      rw [bitsOf_apply, bitsOf_apply, hindex, List.getElem?_cons_succ,
        decide_eq_true (p := offset ≤ x.2) (by omega), decide_eq_true hle]
    have ih := unmarkedLines_bitsOf marked (offset + 1)
    unfold SmartlistSlice.unmarkedLines at ih ⊢
    simp only at ih ⊢
    rw [List.map_cons, List.zipIdx_cons, List.filter_cons, hfirst,
      List.filter_congr fun x hx => by rw [hrest x hx]]
    cases mark with
    | false =>
      rw [if_pos (by decide), List.map_cons, ih, unmarked_cons_false]
    | true =>
      rw [if_neg (by decide), ih, unmarked_cons_true]

/-- **The marks are minimal and consistent**: a call sets the same bits whatever is set before, all
in the slices; the lines without one are the same in both, and no common subsequence is longer. -/
theorem calc_changes_minimal (slice1 slice2 : SmartlistSlice) :
    ∃ marks1 marks2 : Bitarray,
      (∀ changed1 changed2, calcChangesAt slice1 slice2 changed1 changed2
        = (fun i => changed1 i || marks1 i, fun i => changed2 i || marks2 i))
      ∧ (∀ i, marks1 i = true →
        slice1.offset ≤ i ∧ i < slice1.offset + slice1.lines.length)
      ∧ (∀ i, marks2 i = true →
        slice2.offset ≤ i ∧ i < slice2.offset + slice2.lines.length)
      ∧ slice1.unmarkedLines marks1 = slice2.unmarkedLines marks2
      ∧ (slice1.unmarkedLines marks1).Sublist slice1.lines
      ∧ (slice1.unmarkedLines marks1).Sublist slice2.lines
      ∧ ∀ common : List Bytes, common.Sublist slice1.lines → common.Sublist slice2.lines →
        common.length ≤ (slice1.unmarkedLines marks1).length := by
  obtain ⟨offset1, lines1⟩ := slice1
  obtain ⟨offset2, lines2⟩ := slice2
  have hmarks := calcChanges_isChanges lines1 lines2
  have hlength := calcChanges_length lines1 lines2
  have hat := calcChangesAt_eq ⟨offset1, lines1⟩ ⟨offset2, lines2⟩
  simp only at hat
  generalize calcChanges lines1 lines2 = m at hmarks hlength hat
  have hlen1 : lines1.length = m.changed1.length := by rw [← hmarks.lines1, List.length_map]
  have hlen2 : lines2.length = m.changed2.length := by rw [← hmarks.lines2, List.length_map]
  have hun1 : SmartlistSlice.unmarkedLines ⟨offset1, lines1⟩ (bitsOf offset1 m.changed1)
      = unmarked m.changed1 := by
    rw [← unmarkedLines_bitsOf m.changed1 offset1, hmarks.lines1]
  have hun2 : SmartlistSlice.unmarkedLines ⟨offset2, lines2⟩ (bitsOf offset2 m.changed2)
      = unmarked m.changed2 := by
    rw [← unmarkedLines_bitsOf m.changed2 offset2, hmarks.lines2]
  have hsub : ∀ marked : List (Bool × Bytes), (unmarked marked).Sublist (marked.map Prod.snd) :=
    fun marked => List.filter_sublist.map Prod.snd
  refine ⟨bitsOf offset1 m.changed1, bitsOf offset2 m.changed2, hat, fun i hi => ?_, fun i hi => ?_,
    ?_, ?_, ?_, fun common hcommon1 hcommon2 => ?_⟩
  · have hin := bitsOf_inside hi
    rwa [← hlen1] at hin
  · have hin := bitsOf_inside hi
    rwa [← hlen2] at hin
  · rw [hun1, hun2, hmarks.same]
  · rw [hun1, ← hmarks.lines1]
    exact hsub m.changed1
  · rw [hun1, hmarks.same, ← hmarks.lines2]
    exact hsub m.changed2
  · rw [hun1, hlength]
    exact Common.length_le ⟨hcommon1, hcommon2⟩

end Dittor.Tor

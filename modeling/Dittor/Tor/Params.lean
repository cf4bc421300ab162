import Mathlib
import Dittor.Lib.Checks
import Dittor.Lib.Classes
import Dittor.Lib.Signed
import Dittor.Tor.VoteParse

/-!
# The vote on network parameters (`dirvote.c`)

`dirvote_compute_params` sorts the parameters of all votes as strings and walks over them: as long
as the next one begins with the same text up to `=`, it collects values, and at the end of such a
series it writes the low median of them if enough votes listed the parameter.

Up to `=` the strings are sorted as well (`keyText_mono`), since no such text is the beginning of
another. So a series is all there is of one keyword; each vote that was accepted lists a keyword
once, so a series is no longer than the list of votes and its values are those of the votes
(`compute_params_low_medians`).
-/

namespace Dittor.Tor

open Dittor.Lib

/-! ## The computation -/

/-- How it can fail. -/
inductive ParamsError where
  /-- `tor_assert(eq)`, and where `eq` is followed without one. -/
  | noEquals
  /-- `tor_assert(i<n_votes)` -/
  | voteStuffing
  /-- `tor_assert(ok)` -/
  | notANumber
  /-- The assertion of `find_nth_int32` that there are elements. -/
  | noValues
deriving DecidableEq, Repr

/-- `MIN_VOTES_FOR_PARAM` -/
def minVotesForParam : ℕ := 3

/-- `strchr(param, '=') - param` -/
def equalsAt (param : Bytes) : Option ℕ := param.findIdx? fun b => b = byte '='

/-- `strncmp` -/
def strncmp (a b : Bytes) (n : ℕ) : ℤ := strcmp (a.take n) (b.take n)

/-- The end of a series: its low median, if enough votes are in it. The buffer of 64 bytes has room
for every number of 32 bits. -/
def endOfSeries (Q : Qsort) (totalAuthorities : ℤ) (vals : List ℤ) (curParam : Bytes) :
    Except ParamsError (List Bytes) :=
  if (vals.length : ℤ) > totalAuthorities.tdiv 2 ∨ vals.length ≥ minVotesForParam then do
    let median ← torAssertSome .noValues (Q.median vals)
    return [curParam ++ decimalInt median]
  else return []

/-- The loop over the sorted list; `vals` is the part of the array that is filled. -/
def paramsLoop (Q : Qsort) (nVotes : ℕ) (totalAuthorities : ℤ) :
    ℕ → List ℤ → List Bytes → Except ParamsError (List Bytes)
  | _, _, [] => .ok []
  | curParamLen, vals, param :: rest => do
    let eq ← torAssertSome .noEquals (equalsAt param)
    torAssert (vals.length < nVotes) .voteStuffing
    let val ← torAssertSome .notANumber (torParseLong int32Min int32Max (param.drop (eq + 1)))
    match rest.head? with
    | none => endOfSeries Q totalAuthorities (vals ++ [val]) (param.take curParamLen)
    | some nextParam =>
      if strncmp nextParam param curParamLen ≠ 0 then do
        let out ← endOfSeries Q totalAuthorities (vals ++ [val]) (param.take curParamLen)
        let eq ← torAssertSome .noEquals (equalsAt nextParam)
        return out ++ (← paramsLoop Q nVotes totalAuthorities (eq + 1) [] rest)
      else paramsLoop Q nVotes totalAuthorities curParamLen (vals ++ [val]) rest

/-- `dirvote_compute_params` -/
def dirvoteComputeParams (Q : Qsort) (votes : List VoteStatus) (totalAuthorities : ℤ) :
    Except ParamsError (List Bytes) :=
  let paramList := votes.flatMap fun v => v.netParams.getD []
  if paramList.length = 0 then .ok []
  else
    let paramList := Q.sort strcmp paramList
    do
      let curParam ← torAssertSome .noEquals paramList.head?
      let eq ← torAssertSome .noEquals (equalsAt curParam)
      paramsLoop Q votes.length totalAuthorities (eq + 1) [] paramList

/-! ## Keywords -/

/-- A parameter up to its `=`. -/
def keyText (param : Bytes) : Bytes := paramKeyword param ++ [byte '=']

/-- Compared up to `=`. -/
def compareKeys (a b : Bytes) : ℤ := strcmp (keyText a) (keyText b)

section Keys

variable {a b param : Bytes}

theorem equalsAt_eq (h : byte '=' ∈ param) : equalsAt param = some (paramKeyword param).length := by
  induction param with
  | nil => cases h
  | cons x param ih =>
    unfold equalsAt paramKeyword at ih ⊢
    by_cases hx : x = byte '='
    · rw [List.findIdx?_cons, List.takeWhile_cons_of_neg (by simpa using hx)]
      simp [hx]
    · have hmem : byte '=' ∈ param := (List.mem_cons.mp h).resolve_left fun heq => hx heq.symm
      rw [List.findIdx?_cons, List.takeWhile_cons_of_pos (by simpa using hx), ih hmem]
      simp [hx]

theorem param_split (h : byte '=' ∈ param) :
    param = keyText param ++ afterEquals param := by
  induction param with
  | nil => cases h
  | cons x param ih =>
    unfold keyText paramKeyword afterEquals at ih ⊢
    by_cases hx : x = byte '='
    · simp [hx]
    · have hmem : byte '=' ∈ param := (List.mem_cons.mp h).resolve_left fun heq => hx heq.symm
      rw [List.takeWhile_cons_of_pos (by simpa using hx),
        List.dropWhile_cons_of_pos (by simpa using hx), List.cons_append, List.cons_append,
        ← ih hmem]

theorem length_keyText : (keyText param).length = (paramKeyword param).length + 1 := by
  simp [keyText]

theorem drop_equals (h : byte '=' ∈ param) :
    param.drop ((paramKeyword param).length + 1) = afterEquals param := by
  calc param.drop ((paramKeyword param).length + 1)
      = (keyText param ++ afterEquals param).drop (keyText param).length := by
        rw [← param_split h, length_keyText]
    _ = afterEquals param := List.drop_left

theorem take_keyText (h : byte '=' ∈ param) :
    param.take (keyText param).length = keyText param := by
  calc param.take (keyText param).length
      = (keyText param ++ afterEquals param).take (keyText param).length := by
        rw [← param_split h]
    _ = keyText param := List.take_left

theorem keyText_inj : keyText a = keyText b ↔ paramKeyword a = paramKeyword b :=
  List.append_left_inj _

theorem keyText_cons {x : UInt8} (hx : x ≠ byte '=') : keyText (x :: a) = x :: keyText a := by
  rw [keyText, paramKeyword, List.takeWhile_cons_of_pos (by simpa using hx)]
  rfl

theorem keyText_equals : keyText (byte '=' :: a) = [byte '='] := by
  rw [keyText, paramKeyword, List.takeWhile_cons_of_neg (by simp)]
  rfl

/-- Sorted strings are sorted up to `=`. -/
theorem keyText_mono (ha : byte '=' ∈ a) (hb : byte '=' ∈ b) (h : strcmp a b ≤ 0) :
    compareKeys a b ≤ 0 := by
  unfold compareKeys
  induction a generalizing b with
  | nil => cases ha
  | cons x a ih =>
    cases b with
    | nil => cases hb
    | cons y b =>
      rw [strcmp_cons_le] at h
      by_cases hx : x = byte '=' <;> by_cases hy : y = byte '='
      · rw [hx, hy, keyText_equals, keyText_equals, strcmp_self]
      · rw [hx, keyText_equals, keyText_cons hy, strcmp_cons_le]
        exact h.imp (fun hlt => by rwa [hx] at hlt) fun heq => absurd (heq.1.symm.trans hx) hy
      · rw [hy, keyText_equals, keyText_cons hx, strcmp_cons_le]
        exact h.imp (fun hlt => by rwa [hy] at hlt) fun heq => absurd (heq.1.trans hy) hx
      · have hmem : byte '=' ∈ a := (List.mem_cons.mp ha).resolve_left fun heq => hx heq.symm
        have hmem' : byte '=' ∈ b := (List.mem_cons.mp hb).resolve_left fun heq => hy heq.symm
        rw [keyText_cons hx, keyText_cons hy, strcmp_cons_le]
        exact h.imp_right fun heq => ⟨heq.1, ih hmem hmem' heq.2⟩

theorem orders_compareKeys : Orders compareKeys Set.univ := orders_strcmp.comap keyText

theorem compareKeys_eq_zero : compareKeys a b = 0 ↔ keyText a = keyText b := strcmp_eq_zero

/-- The next parameter begins with the text of the series exactly if it has its keyword. -/
theorem strncmp_eq_zero (ha : byte '=' ∈ a) (hb : byte '=' ∈ b) :
    strncmp b a (keyText a).length = 0 ↔ compareKeys a b = 0 := by
  rw [strncmp, strcmp_eq_zero, take_keyText ha, compareKeys_eq_zero]
  constructor
  · intro h
    have hsplit : b = paramKeyword a ++ byte '=' :: b.drop (keyText a).length := by
      conv_lhs => rw [← List.take_append_drop (keyText a).length b, h, keyText, List.append_assoc]
      rfl
    have hkeyword : paramKeyword b = paramKeyword a := by
      have hall : ∀ x ∈ paramKeyword a, decide (x ≠ byte '=') = true := by
        intro x hx
        unfold paramKeyword at hx
        exact List.mem_takeWhile_imp (p := fun b => decide (b ≠ byte '=')) hx
      rw [hsplit, paramKeyword, List.takeWhile_append_of_pos hall,
        List.takeWhile_cons_of_neg (by simp), List.append_nil]
    rw [keyText, keyText, hkeyword]
  · intro h
    rw [h, take_keyText hb]

end Keys

/-! ## Series -/

/-- The low median: the element in the middle of the sorted list, the first of two. -/
def lowMedian (l : List ℤ) : Option ℤ := (l.insertionSort (· ≤ ·))[(l.length - 1) / 2]?

/-- So many votes are more than half of the authorities, or at least three. -/
def EnoughVotes (totalAuthorities : ℤ) (n : ℕ) : Prop := totalAuthorities < 2 * n ∨ 3 ≤ n

instance (totalAuthorities : ℤ) (n : ℕ) : Decidable (EnoughVotes totalAuthorities n) :=
  inferInstanceAs (Decidable (_ ∨ _))

section Series

variable (Q : Qsort) {nVotes : ℕ} {total : ℤ} {vals : List ℤ} {k x : Bytes} {g rest l : List Bytes}

theorem median_eq_lowMedian : Q.median vals = lowMedian vals := by
  have hsort : Q.sort cmpNum vals = vals.insertionSort (· ≤ ·) := by
    refine List.Perm.eq_of_pairwise (fun a b _ _ => le_antisymm) Q.sort_sorted
      (List.pairwise_insertionSort _ vals) ?_
    exact (Q.perm cmpNum vals).trans (List.perm_insertionSort _ vals).symm
  rw [Qsort.median, hsort, lowMedian]

theorem lowMedian_perm {vals' : List ℤ} (h : vals.Perm vals') : lowMedian vals = lowMedian vals' := by
  rw [← median_eq_lowMedian Qsort.insertion, ← median_eq_lowMedian Qsort.insertion]
  exact Qsort.insertion.median_eq_of_perm h

theorem enoughVotes_iff {n : ℕ} (h : 0 < n) :
    ((n : ℤ) > total.tdiv 2 ∨ n ≥ minVotesForParam) ↔ EnoughVotes total n := by
  have hhalf : (n : ℤ) > total.tdiv 2 ↔ total < 2 * n := by
    rcases le_total 0 total with hpos | hneg
    · rw [Int.tdiv_eq_ediv_of_nonneg hpos]
      omega
    · have hle : total.tdiv 2 ≤ 0 := by
        have := Int.tdiv_nonneg (a := -total) (b := 2) (by omega) (by omega)
        rw [Int.neg_tdiv] at this
        omega
      omega
  rw [hhalf]
  rfl

/-- What a series gives. -/
def seriesOut (total : ℤ) (r : Bytes × List Bytes) : Option (Bytes × ℤ) :=
  if EnoughVotes total (r.2.length + 1) then
    (lowMedian ((r.1 :: r.2).filterMap paramValue)).map fun m => (paramKeyword r.1, m)
  else none

theorem seriesOut_eq_some {r : Bytes × List Bytes} {p : Bytes × ℤ} (h : seriesOut total r = some p) :
    p.1 = paramKeyword r.1 ∧ EnoughVotes total (r.2.length + 1)
      ∧ lowMedian ((r.1 :: r.2).filterMap paramValue) = some p.2 := by
  unfold seriesOut at h
  split_ifs at h with henough
  obtain ⟨m, hm, rfl⟩ := Option.map_eq_some_iff.mp h
  exact ⟨rfl, henough, hm⟩

/-- A parameter as it is written. -/
def paramText (p : Bytes × ℤ) : Bytes := p.1 ++ [byte '='] ++ decimalInt p.2

theorem endOfSeries_eq (h : vals ≠ []) :
    endOfSeries Q total vals k = .ok (if EnoughVotes total vals.length then
      ((lowMedian vals).map fun m => k ++ decimalInt m).toList else []) := by
  obtain ⟨m, hm⟩ := Q.median_isSome h
  have hiff : ((vals.length : ℤ) > total.tdiv 2 ∨ vals.length ≥ minVotesForParam)
      ↔ EnoughVotes total vals.length := enoughVotes_iff (List.length_pos_iff.mpr h)
  unfold endOfSeries
  by_cases henough : EnoughVotes total vals.length
  · rw [if_pos (hiff.mpr henough), if_pos henough, hm]
    rw [median_eq_lowMedian] at hm
    rw [hm]
    rfl
  · rw [if_neg (mt hiff.mp henough), if_neg henough]
    rfl

/-- The loop from the start of a series. -/
def seriesLoop (nVotes : ℕ) (total : ℤ) : List Bytes → Except ParamsError (List Bytes)
  | [] => .ok []
  | next :: rest => paramsLoop Q nVotes total (keyText next).length [] (next :: rest)

/-- A parameter with an `=` and a number of 32 bits. -/
theorem paramOk_iff : paramOk x = true ↔ byte '=' ∈ x ∧ ∃ v, paramValue x = some v := by
  rw [paramOk, Bool.and_eq_true, decide_eq_true_iff, Option.isSome_iff_exists]

/-- One round of the loop. -/
theorem paramsLoop_cons {v : ℤ} {n : ℕ} (hx : byte '=' ∈ x) (hv : paramValue x = some v)
    (hlen : vals.length < nVotes) :
    paramsLoop Q nVotes total n vals (x :: rest) =
      match rest.head? with
      | none => endOfSeries Q total (vals ++ [v]) (x.take n)
      | some next =>
        if strncmp next x n ≠ 0 then do
          let out ← endOfSeries Q total (vals ++ [v]) (x.take n)
          let eq ← torAssertSome .noEquals (equalsAt next)
          return out ++ (← paramsLoop Q nVotes total (eq + 1) [] rest)
        else paramsLoop Q nVotes total n (vals ++ [v]) rest := by
  have hval : torParseLong int32Min int32Max (x.drop ((paramKeyword x).length + 1)) = some v := by
    rw [drop_equals hx]
    exact hv
  conv_lhs => rw [paramsLoop, equalsAt_eq hx, torAssert, if_pos hlen]
  simp only [torAssertSome, bind, Except.bind, hval]

/-- **What the loop does with a series**: it collects the values and goes on behind it. -/
theorem paramsLoop_series (hok : ∀ p ∈ x :: g ++ rest, paramOk p = true)
    (hkey : ∀ p ∈ x :: g, keyText p = k) (hrest : ∀ p ∈ rest.head?, keyText p ≠ k)
    (hlen : vals.length + (x :: g).length ≤ nVotes) :
    paramsLoop Q nVotes total k.length vals (x :: g ++ rest) = do
      let out ← endOfSeries Q total (vals ++ (x :: g).filterMap paramValue) k
      return out ++ (← seriesLoop Q nVotes total rest) := by
  induction g generalizing x vals with
  | nil =>
    obtain ⟨hx, v, hv⟩ := paramOk_iff.mp (hok x (by simp))
    have hk := hkey x (by simp)
    have htake : x.take k.length = k := by rw [← hk, take_keyText hx]
    have hvals : [x].filterMap paramValue = [v] := by simp [hv]
    rw [List.cons_append, List.nil_append, paramsLoop_cons Q hx hv (by simp at hlen; omega), htake,
      hvals]
    cases rest with
    | nil =>
      rw [endOfSeries_eq Q (by simp)]
      simp [seriesLoop, bind, Except.bind, pure, Except.pure]
    | cons next rest =>
      obtain ⟨hnext, -⟩ := paramOk_iff.mp (hok next (by simp))
      have hdiff : strncmp next x k.length ≠ 0 := by
        rw [← hk, Ne, strncmp_eq_zero hx hnext, compareKeys_eq_zero, hk]
        exact fun hsame => hrest next rfl hsame.symm
      rw [List.head?_cons]
      dsimp only
      rw [if_pos hdiff, equalsAt_eq hnext, seriesLoop, length_keyText]
      rfl
  | cons y g ih =>
    obtain ⟨hx, v, hv⟩ := paramOk_iff.mp (hok x (by simp))
    obtain ⟨hy, -⟩ := paramOk_iff.mp (hok y (by simp))
    have hsame : ¬ strncmp y x k.length ≠ 0 := by
      rw [not_not, ← hkey x (by simp), strncmp_eq_zero hx hy, compareKeys_eq_zero,
        hkey x (by simp), hkey y (by simp)]
    have hnext := @ih (vals ++ [v]) y (fun p hp => hok p (by simp at hp ⊢; tauto))
      (fun p hp => hkey p (List.mem_cons_of_mem x hp)) (by simp at hlen ⊢; omega)
    rw [List.cons_append, paramsLoop_cons Q hx hv (by simp at hlen; omega), List.cons_append,
      List.head?_cons]
    dsimp only
    rw [if_neg hsame]
    rw [List.cons_append] at hnext
    rw [hnext, List.filterMap_cons_some hv, List.append_assoc]
    rfl

/-- The parameters of a series are no more than there are votes. -/
def SeriesFit (nVotes : ℕ) (l : List Bytes) : Prop :=
  ∀ r ∈ runsBy (fun a b => compareKeys a b = 0) l, r.2.length + 1 ≤ nVotes

/-- The loop gives what its series give. -/
theorem seriesLoop_eq (hok : ∀ p ∈ l, paramOk p = true) (hfit : SeriesFit nVotes l) :
    seriesLoop Q nVotes total l = .ok (((runsBy (fun a b => compareKeys a b = 0) l).filterMap
      (seriesOut total)).map paramText) := by
  unfold SeriesFit at hfit
  induction l using runsBy.induct fun a b => decide (compareKeys a b = 0) with
  | case1 =>
    rw [runsBy_nil]
    rfl
  | case2 a l ih =>
    rw [runsBy_cons] at hfit ⊢
    obtain ⟨hfirst, hfits⟩ := List.forall_mem_cons.mp hfit
    set g := l.takeWhile fun b => compareKeys a b = 0 with hg
    set rest := l.dropWhile fun b => compareKeys a b = 0 with hrest
    have hsplit : l = g ++ rest := (List.takeWhile_append_dropWhile).symm
    have hih := ih (fun p hp => hok p (by rw [hsplit]; simp [hp])) hfits
    have hkey : ∀ p ∈ a :: g, keyText p = keyText a := by
      intro p hp
      rcases List.mem_cons.mp hp with rfl | hp
      · rfl
      · have hsame := List.mem_takeWhile_imp (p := fun b => decide (compareKeys a b = 0)) hp
        rw [decide_eq_true_iff, compareKeys_eq_zero] at hsame
        exact hsame.symm
    have hnext : ∀ p ∈ rest.head?, keyText p ≠ keyText a := by
      intro p hp heq
      have hdiff := List.head?_dropWhile_not (fun b => decide (compareKeys a b = 0)) l
      rw [← hrest, Option.mem_def.mp hp] at hdiff
      dsimp only at hdiff
      rw [decide_eq_false_iff_not, compareKeys_eq_zero] at hdiff
      exact hdiff heq.symm
    have hvalues : (a :: g).filterMap paramValue ≠ [] := by
      obtain ⟨-, v, hv⟩ := paramOk_iff.mp (hok a List.mem_cons_self)
      rw [List.filterMap_cons_some hv]
      simp
    have hcount : ((a :: g).filterMap paramValue).length = g.length + 1 := by
      have hall : ∀ p ∈ a :: g, (paramValue p).isSome = true := by
        intro p hp
        obtain ⟨-, v, hv⟩ := paramOk_iff.mp (hok p (by rw [hsplit]; simp at hp ⊢; tauto))
        rw [hv]
        rfl
      rw [← List.length_cons, List.length_filterMap_eq_countP, List.countP_eq_length]
      exact hall
    have hseries : paramsLoop Q nVotes total (keyText a).length [] (a :: g ++ rest) = do
        let out ← endOfSeries Q total ([] ++ (a :: g).filterMap paramValue) (keyText a)
        return out ++ (← seriesLoop Q nVotes total rest) :=
      paramsLoop_series Q (fun p hp => hok p (by rw [hsplit]; exact hp)) hkey hnext
        (by simpa using hfirst)
    rw [List.cons_append, ← hsplit, List.nil_append, endOfSeries_eq Q hvalues, hih, hcount] at hseries
    obtain ⟨m, hm⟩ := Q.median_isSome hvalues
    rw [median_eq_lowMedian] at hm
    rw [seriesLoop, hseries, hm]
    by_cases henough : EnoughVotes total (g.length + 1)
    · have hout : seriesOut total (a, g) = some (paramKeyword a, m) := by
        unfold seriesOut
        rw [if_pos henough, hm]
        rfl
      rw [if_pos henough, List.filterMap_cons_some hout]
      rfl
    · have hout : seriesOut total (a, g) = none := if_neg henough
      rw [if_neg henough, List.filterMap_cons_none hout]
      rfl

end Series

/-! ## What the votes list -/

/-- The parameters of a vote. -/
def voteParams (v : VoteStatus) : List Bytes := v.netParams.getD []

/-- The parameter of a keyword in a vote. -/
def listedParam (k : Bytes) (v : VoteStatus) : Option Bytes :=
  (voteParams v).find? fun p => paramKeyword p = k

/-- How many votes list a keyword. -/
def votesFor (votes : List VoteStatus) (k : Bytes) : ℕ :=
  votes.countP fun v => (listedParam k v).isSome

/-- The values that are listed for it. -/
def listedValues (votes : List VoteStatus) (k : Bytes) : List ℤ :=
  votes.filterMap fun v => (listedParam k v).bind paramValue

section Votes

variable {v : VoteStatus} {votes : List VoteStatus} {k p : Bytes} {l : List Bytes}

theorem voteParams_ok (h : v.Accepted) : ∀ p ∈ voteParams v, paramOk p = true := by
  intro p hp
  unfold voteParams at hp
  cases hargs : v.netParams with
  | none => simp [hargs] at hp
  | some args =>
    rw [hargs] at hp
    exact (h.params hargs).1 p hp

/-- What is checked of neighbours holds of any two. -/
theorem paramsInOrder_pairwise (hok : ∀ p ∈ l, paramOk p = true) (h : paramsInOrder l = true) :
    l.Pairwise fun a b => compareKeys a b < 0 := by
  have hchain : l.IsChain fun a b => compareKeys a b < 0 := by
    induction l with
    | nil => exact List.IsChain.nil
    | cons a l ih =>
      cases l with
      | nil => exact List.IsChain.singleton a
      | cons b l =>
        have hall : (strcmp a b < 0 ∧ paramKeyword a ≠ paramKeyword b)
            ∧ paramsInOrder (b :: l) = true := by
          simpa [paramsInOrder] using h
        obtain ⟨⟨hlt, hne⟩, hrest⟩ := hall
        obtain ⟨ha, -⟩ := paramOk_iff.mp (hok a (by simp))
        obtain ⟨hb, -⟩ := paramOk_iff.mp (hok b (by simp))
        have hkeys : compareKeys a b ≠ 0 := by
          rw [Ne, compareKeys_eq_zero, keyText_inj]
          exact hne
        exact List.IsChain.cons_cons (lt_of_le_of_ne (keyText_mono ha hb hlt.le) hkeys)
          (ih (fun p hp => hok p (List.mem_cons_of_mem a hp)) hrest)
  have htrans : IsTrans Bytes fun a b => compareKeys a b < 0 :=
    ⟨fun a b c hab hbc => strcmp_lt_trans hab hbc⟩
  exact List.isChain_iff_pairwise.mp hchain

/-- A vote lists a keyword once. -/
theorem filter_keyword (h : v.Accepted) :
    (voteParams v).filter (fun p => paramKeyword p = k) = (listedParam k v).toList := by
  have hpair : (voteParams v).Pairwise fun a b => compareKeys a b < 0 := by
    have hok := voteParams_ok h
    unfold voteParams at hok ⊢
    cases hargs : v.netParams with
    | none => exact List.Pairwise.nil
    | some args =>
      rw [hargs] at hok
      exact paramsInOrder_pairwise hok (h.params hargs).2
  unfold listedParam
  generalize voteParams v = l at hpair
  induction l with
  | nil => rfl
  | cons a l ih =>
    obtain ⟨hfirst, hrest⟩ := List.pairwise_cons.mp hpair
    by_cases ha : paramKeyword a = k
    · rw [List.filter_cons_of_pos (by simpa using ha), List.find?_cons_of_pos (by simpa using ha)]
      have hnone : l.filter (fun p => paramKeyword p = k) = [] := by
        refine List.filter_eq_nil_iff.mpr fun p hp => ?_
        have hlt := hfirst p hp
        rw [decide_eq_true_iff]
        intro hk
        have heq : compareKeys a p = 0 := by
          rw [compareKeys_eq_zero, keyText_inj, ha, hk]
        omega
      rw [hnone]
      rfl
    · rw [List.filter_cons_of_neg (by simpa using ha), List.find?_cons_of_neg (by simpa using ha)]
      exact ih hrest

/-- The parameters of a keyword in all votes. -/
theorem filter_paramList (h : ∀ v ∈ votes, v.Accepted) :
    (votes.flatMap voteParams).filter (fun p => paramKeyword p = k)
      = votes.filterMap (listedParam k) := by
  induction votes with
  | nil => rfl
  | cons v votes ih =>
    obtain ⟨hv, hvotes⟩ := List.forall_mem_cons.mp h
    rw [List.flatMap_cons, List.filter_append, filter_keyword hv, ih hvotes]
    cases hlisted : listedParam k v with
    | none => rw [List.filterMap_cons_none hlisted]; rfl
    | some p => rw [List.filterMap_cons_some hlisted]; rfl

/-- A series of the sorted list is what the votes list for its keyword. -/
theorem series_votes (h : ∀ v ∈ votes, v.Accepted) (hperm : l.Perm (votes.flatMap voteParams))
    {r : Bytes × List Bytes} (hr : r.1 :: r.2 = l.filter fun x => compareKeys r.1 x = 0) :
    r.2.length + 1 = votesFor votes (paramKeyword r.1)
      ∧ ((r.1 :: r.2).filterMap paramValue).Perm (listedValues votes (paramKeyword r.1)) := by
  have hfilter : (r.1 :: r.2).Perm (votes.filterMap (listedParam (paramKeyword r.1))) := by
    rw [hr, ← filter_paramList h]
    have hkeys : (fun x => decide (compareKeys r.1 x = 0))
        = fun x => decide (paramKeyword x = paramKeyword r.1) := by
      funext x
      rw [decide_eq_decide, compareKeys_eq_zero, keyText_inj, eq_comm]
    rw [hkeys]
    exact hperm.filter _
  refine ⟨?_, ?_⟩
  · rw [← List.length_cons, hfilter.length_eq, List.length_filterMap_eq_countP, votesFor]
  · refine (hfilter.filterMap _).trans (List.Perm.of_eq ?_)
    rw [List.filterMap_filterMap, listedValues]

end Votes

/-- **Parameters are voted on by low medians.** -/
theorem compute_params_low_medians (Q : Qsort) {votes : List VoteStatus}
    (h : ∀ v ∈ votes, v.Accepted) (totalAuthorities : ℤ) :
    ∃ params : List (Bytes × ℤ),
      dirvoteComputeParams Q votes totalAuthorities = .ok (params.map paramText)
        ∧ params.Pairwise (fun p p' => strcmp (p.1 ++ [byte '=']) (p'.1 ++ [byte '=']) < 0)
        ∧ ∀ k m, (k, m) ∈ params ↔ 0 < votesFor votes k
          ∧ EnoughVotes totalAuthorities (votesFor votes k)
          ∧ lowMedian (listedValues votes k) = some m := by
  set l := Q.sort strcmp (votes.flatMap voteParams) with hl
  have hperm : l.Perm (votes.flatMap voteParams) := Q.perm _ _
  have hok : ∀ p ∈ l, paramOk p = true := by
    intro p hp
    obtain ⟨v, hv, hpv⟩ := List.mem_flatMap.mp (hperm.mem_iff.mp hp)
    exact voteParams_ok (h v hv) p hpv
  have hsorted : l.Pairwise fun a b => compareKeys a b ≤ 0 := by
    refine List.Pairwise.imp_of_mem ?_ (Q.sorted (consistentOn_strcmp _))
    intro a b ha hb hab
    exact keyText_mono (paramOk_iff.mp (hok a ha)).1 (paramOk_iff.mp (hok b hb)).1 hab
  obtain ⟨hstrict, hwhole, hcover⟩ := runsBy_classes orders_compareKeys (fun _ _ => trivial) hsorted
  have hfit : SeriesFit votes.length l := by
    intro r hr
    rw [(series_votes h hperm (hwhole r hr)).1]
    exact List.countP_le_length
  refine ⟨(runsBy (fun a b => compareKeys a b = 0) l).filterMap (seriesOut totalAuthorities), ?_, ?_,
    fun k m => ⟨fun hmem => ?_, fun ⟨hpos, henough, hmedian⟩ => ?_⟩⟩
  · rw [← seriesLoop_eq Q hok hfit]
    have hlist : (votes.flatMap fun v => v.netParams.getD []) = votes.flatMap voteParams := rfl
    unfold dirvoteComputeParams
    rw [hlist]
    dsimp only
    rw [← hperm.length_eq, ← hl]
    cases hcons : l with
    | nil => rfl
    | cons a rest =>
      obtain ⟨ha, -⟩ := paramOk_iff.mp (hok a (by rw [hcons]; exact List.mem_cons_self))
      rw [if_neg (by simp), List.head?_cons]
      simp only [torAssertSome, bind, Except.bind, equalsAt_eq ha]
      rw [seriesLoop, length_keyText]
  · refine hstrict.filterMap _ ?_
    intro r r' hlt p hp p' hp'
    rw [(seriesOut_eq_some hp).1, (seriesOut_eq_some hp').1]
    exact hlt
  · obtain ⟨r, hr, hout⟩ := List.mem_filterMap.mp hmem
    obtain ⟨rfl, henough, hmedian⟩ := seriesOut_eq_some hout
    obtain ⟨hcount, hvalues⟩ := series_votes h hperm (hwhole r hr)
    rw [hcount] at henough
    rw [lowMedian_perm hvalues] at hmedian
    exact ⟨by omega, henough, hmedian⟩
  · obtain ⟨v, hv, hlists⟩ := List.countP_pos_iff.mp hpos
    obtain ⟨p, hp⟩ := Option.isSome_iff_exists.mp hlists
    have hpk : paramKeyword p = k := by simpa using List.find?_some hp
    have hpl : p ∈ l := hperm.mem_iff.mpr
      (List.mem_flatMap.mpr ⟨v, hv, List.mem_of_find?_eq_some hp⟩)
    obtain ⟨r, hr, hrp⟩ := hcover p hpl
    have hrk : paramKeyword r.1 = k := by
      rw [compareKeys_eq_zero, keyText_inj] at hrp
      rw [hrp, hpk]
    obtain ⟨hcount, hvalues⟩ := series_votes h hperm (hwhole r hr)
    rw [hrk] at hcount hvalues
    refine List.mem_filterMap.mpr ⟨r, hr, ?_⟩
    unfold seriesOut
    rw [hcount, if_pos henough, lowMedian_perm hvalues, hmedian, hrk]
    rfl

/-- A vote of the one authority with two parameters, one keyword the beginning of the other. -/
theorem compute_params_low_medians_one :
    ∃ v : VoteStatus, v.netParams = some [cstring "a=1", cstring "ab=7"]
      ∧ ∃ params : List (Bytes × ℤ), dirvoteComputeParams Qsort.insertion [v] 1
          = .ok (params.map paramText)
        ∧ (cstring "a", 1) ∈ params ∧ (cstring "ab", 7) ∈ params := by
  obtain ⟨v, hv, -, hparams⟩ := exists_accepted []
    (show ∀ p ∈ [cstring "a=1", cstring "ab=7"], paramOk p = true by decide) (by decide)
  obtain ⟨params, hok, -, hmem⟩ := compute_params_low_medians Qsort.insertion
    (fun w hw => List.mem_singleton.mp hw ▸ hv) 1
  have hlisted : ∀ k, listedParam k v
      = [cstring "a=1", cstring "ab=7"].find? fun p => paramKeyword p = k := by
    intro k
    unfold listedParam voteParams
    rw [hparams]
    rfl
  refine ⟨v, hparams, params, hok, ?_, ?_⟩
  all_goals
    rw [hmem]
    simp only [votesFor, listedValues, List.countP_cons, List.countP_nil, List.filterMap_cons,
      List.filterMap_nil, hlisted]
    decide

end Dittor.Tor

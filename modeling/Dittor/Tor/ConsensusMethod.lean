import Mathlib
import Dittor.Lib.Arrangements
import Dittor.Lib.Checks
import Dittor.Tor.VoteParse

/-!
# The consensus method (`dirvote.c`)

`compute_consensus_method` takes the methods of all votes, those of each vote once, sorts them by
their numbers and keeps what more than two thirds of the votes have. `cmp_int_strings_`, by which
methods are sorted and duplicates removed, equates all spellings of a number, but
`get_frequent_members` counts texts that are equal and next to each other. So a method is lost if
the votes do not spell it alike, and a text that is no method wins if it is all that is common.

`consensus_method_right_iff` says for which votes the result is right however `qsort` arranges what
it finds equal; for this each call of it has a `Qsort` of its own.
-/

namespace Dittor.Tor

open Dittor.Lib

/-! ## The computation -/

/-- How it can fail. -/
inductive ConsensusMethodError where
  /-- `tor_assert(vote->supported_methods)` -/
  | noMethods
deriving DecidableEq, Repr

/-- A method as a number; zero if it is none. -/
def methodValue (s : Bytes) : ℤ := (torParseLong 1 intMaxZ s).getD 0

/-- `cmp_int_strings_` -/
def cmpIntStrings (a b : Bytes) : ℤ :=
  let ai := methodValue a
  let bi := methodValue b
  if ai < bi then -1
  else if ai = bi then
    if ai = 0 then strcmp a b else 0
  else 1

/-- `get_frequent_members` -/
def getFrequentMembers (l : List Bytes) (min : ℕ) : List Bytes :=
  ((smartlistRuns (fun cur cp => strcmp cp cur = 0) l).filter fun r => min < r.2).map Prod.fst

/-- The methods of a vote, each once. -/
def uniqMethods (Q : Qsort) (methods : List Bytes) : List Bytes :=
  smartlistUniq cmpIntStrings (Q.sort cmpIntStrings methods)

/-- The loop over the votes, from the `i`-th one on. -/
def addMethods (Qs : ℕ → Qsort) : ℕ → List VoteStatus → Except ConsensusMethodError (List Bytes)
  | _, [] => .ok []
  | i, vote :: votes => do
    let methods ← torAssertSome .noMethods vote.supportedMethods
    return uniqMethods (Qs i) methods ++ (← addMethods Qs (i + 1) votes)

/-- `compute_consensus_method`; `qsort` is called for each vote and then for all methods. -/
def computeConsensusMethod (Qs : ℕ → Qsort) (votes : List VoteStatus) :
    Except ConsensusMethodError ℤ := do
  let allMethods ← addMethods Qs 0 votes
  let acceptable := getFrequentMembers ((Qs votes.length).sort cmpIntStrings allMethods)
    (votes.length * 2 / 3)
  match acceptable.getLast? with
  | some best => return methodValue best
  | none => return 1

/-! ## What it is meant to find -/

/-- The methods that a vote lists. -/
def methodsOf (v : VoteStatus) : List Bytes := v.supportedMethods.getD []

/-- The text is a decimal spelling of the number. -/
def Spells (s : Bytes) (m : ℤ) : Prop := strtol s = some (m, [])

instance (s : Bytes) (m : ℤ) : Decidable (Spells s m) := inferInstanceAs (Decidable (_ = _))

/-- The vote lists the method in some spelling. -/
def listsMethod (m : ℤ) (v : VoteStatus) : Bool := (methodsOf v).any fun s => Spells s m

/-- More than two thirds of the votes are so. -/
def MostVotes (votes : List VoteStatus) (p : VoteStatus → Bool) : Prop :=
  2 * votes.length < 3 * votes.countP p

/-- More than two thirds of the votes list the method. -/
def CommonMethod (votes : List VoteStatus) (m : ℤ) : Prop := MostVotes votes (listsMethod m)

/-- The largest such method. -/
structure BestMethod (votes : List VoteStatus) (m : ℤ) : Prop where
  common : CommonMethod votes m
  greatest : ∀ m', CommonMethod votes m' → m' ≤ m

/-- The best method, or one if there is none. -/
def RightMethod (votes : List VoteStatus) (m : ℤ) : Prop :=
  BestMethod votes m ∨ m = 1 ∧ ∀ m', ¬ CommonMethod votes m'

/-- More than two thirds of the votes list a text that is no number of a method. -/
def OddCommon (votes : List VoteStatus) : Prop :=
  ∃ s, methodValue s = 0 ∧ MostVotes votes fun v => s ∈ methodsOf v

/-- All votes that list the method spell it alike. -/
def SpelledAlike (votes : List VoteStatus) (m : ℤ) : Prop :=
  ∃ s, ∀ v ∈ votes, ∀ s' ∈ methodsOf v, Spells s' m → s' = s

/-- The best method fits and is found in spite of its spellings, or nothing odd is in its way. -/
def MethodsClear (votes : List VoteStatus) : Prop :=
  (∃ m, BestMethod votes m ∧
    (1 ≤ m ∧ m ≤ intMaxZ
        ∧ (SpelledAlike votes m ∨ votes.length = 1 ∨ m = 1 ∧ ¬ OddCommon votes)
      ∨ m = 0 ∧ OddCommon votes))
  ∨ (∀ m, ¬ CommonMethod votes m) ∧ ¬ OddCommon votes

/-! ## Methods as numbers -/

section Numbers

variable {a b s : Bytes} {m : ℤ}

theorem methodValue_eq (h : 1 ≤ m) : methodValue s = m ↔ Spells s m ∧ m ≤ intMaxZ := by
  unfold methodValue torParseLong Spells
  split
  next r hr =>
    rw [hr]
    split_ifs with hrange
    · simp only [Option.getD_none, Option.some.injEq, Prod.mk.injEq, and_true]
      omega
    · simp only [Option.getD_some, Option.some.injEq, Prod.mk.injEq, and_true]
      omega
  next hno =>
    rw [Option.getD_none]
    refine ⟨fun h0 => by omega, fun ⟨hs, _⟩ => absurd hs (hno m)⟩

theorem methodValue_range : 0 ≤ methodValue s ∧ methodValue s ≤ intMaxZ := by
  unfold methodValue torParseLong
  split
  · split_ifs with hrange
    · exact ⟨le_rfl, by decide⟩
    · rw [Option.getD_some]
      omega
  · exact ⟨le_rfl, by decide⟩

theorem cmpIntStrings_eq :
    cmpIntStrings a b = thenBy (cmpNum (methodValue a) (methodValue b))
      (strcmp (if methodValue a = 0 then a else []) (if methodValue b = 0 then b else [])) := by
  unfold cmpIntStrings thenBy cmpNum
  dsimp only
  rcases lt_trichotomy (methodValue a) (methodValue b) with h | h | h
  · rw [if_pos h, if_pos h, if_pos (by decide)]
  · rw [if_neg h.not_lt, if_pos h, if_neg h.not_lt, if_neg h.not_gt, if_neg (not_not.mpr rfl), ← h]
    split_ifs
    · rfl
    · rfl
  · rw [if_neg h.not_gt, if_neg h.not_gt, if_neg h.ne', if_pos h, if_pos (by decide)]

theorem orders_cmpIntStrings : Orders cmpIntStrings Set.univ := by
  have h : Orders (fun a b => thenBy (cmpNum (methodValue a) (methodValue b))
      (strcmp (if methodValue a = 0 then a else []) (if methodValue b = 0 then b else [])))
      Set.univ :=
    (orders_cmpNum.comap methodValue).thenBy
      (orders_strcmp.comap fun s => if methodValue s = 0 then s else [])
  have heq : cmpIntStrings = fun a b => thenBy (cmpNum (methodValue a) (methodValue b))
      (strcmp (if methodValue a = 0 then a else []) (if methodValue b = 0 then b else [])) := by
    funext a b
    exact cmpIntStrings_eq
  rw [heq]
  exact h

/-- Numbers are equated by their value, other texts with themselves only. -/
theorem cmpIntStrings_eq_zero :
    cmpIntStrings a b = 0 ↔ methodValue a = methodValue b ∧ (methodValue a = 0 → a = b) := by
  unfold cmpIntStrings
  dsimp only
  split_ifs with hlt heq hzero
  · simp [hlt.ne]
  · rw [strcmp_eq_zero]
    exact ⟨fun h => ⟨heq, fun _ => h⟩, fun h => h.2 hzero⟩
  · simp [heq, heq ▸ hzero]
  · simp [heq]

theorem methodValue_mono (h : cmpIntStrings a b ≤ 0) : methodValue a ≤ methodValue b := by
  unfold cmpIntStrings at h
  dsimp only at h
  split_ifs at h with hlt heq
  · exact hlt.le
  · exact heq.le
  · exact heq.le
  · omega

end Numbers

/-! ## What is collected of the votes -/

/-- What `addMethods` collects where each vote has a list of methods. -/
def allMethods (Qs : ℕ → Qsort) : ℕ → List VoteStatus → List Bytes
  | _, [] => []
  | i, vote :: votes => uniqMethods (Qs i) (methodsOf vote) ++ allMethods Qs (i + 1) votes

section Collected

variable {Q : Qsort} {Qs Qs' : ℕ → Qsort} {i : ℕ} {v : VoteStatus} {votes votes' : List VoteStatus}
variable {methods : List Bytes} {a s : Bytes}

theorem addMethods_ok (h : ∀ v ∈ votes, ∃ l, v.supportedMethods = some l) :
    addMethods Qs i votes = .ok (allMethods Qs i votes) := by
  induction votes generalizing i with
  | nil => rfl
  | cons v votes ih =>
    obtain ⟨⟨l, hl⟩, hvotes⟩ := List.forall_mem_cons.mp h
    rw [addMethods, ih hvotes, allMethods, methodsOf, hl]
    rfl

theorem allMethods_append :
    allMethods Qs i (votes ++ votes')
      = allMethods Qs i votes ++ allMethods Qs (i + votes.length) votes' := by
  induction votes generalizing i with
  | nil => rfl
  | cons v votes ih =>
    rw [List.cons_append, allMethods, allMethods, ih, List.append_assoc, List.length_cons,
      Nat.add_right_comm, Nat.add_assoc]

/-- Only the calls for the votes matter. -/
theorem allMethods_congr (h : ∀ j, i ≤ j → j < i + votes.length → Qs j = Qs' j) :
    allMethods Qs i votes = allMethods Qs' i votes := by
  induction votes generalizing i with
  | nil => rfl
  | cons v votes ih =>
    rw [List.length_cons] at h
    rw [allMethods, allMethods, h i le_rfl (by omega), ih fun j hj hlt => h j (by omega) (by omega)]

/-- Of a vote there is one text of each class. -/
theorem uniqMethods_classes (Q : Qsort) (methods : List Bytes) (a : Bytes) :
    (uniqMethods Q methods).Nodup ∧ (∀ s ∈ uniqMethods Q methods, s ∈ methods)
      ∧ classCount cmpIntStrings (uniqMethods Q methods) a
        = if methods.any (fun s => cmpIntStrings a s = 0) then 1 else 0 := by
  obtain ⟨hstrict, hmem, hcover⟩ := smartlistUniq_classes orders_cmpIntStrings
    (fun _ _ => trivial) (Q.sorted (orders_cmpIntStrings.consistentOn (l := methods) fun _ _ => trivial))
  have hmem' : ∀ s ∈ uniqMethods Q methods, s ∈ methods := fun s hs => Q.mem_sort.mp (hmem s hs)
  refine ⟨hstrict.imp fun hlt heq => ?_, hmem', ?_⟩
  · rw [heq, orders_cmpIntStrings.self trivial] at hlt
    omega
  · have hone : classCount cmpIntStrings (uniqMethods Q methods) a = _ :=
      classCount_strict orders_cmpIntStrings (fun _ _ => trivial) trivial hstrict
    have hany : (uniqMethods Q methods).any (fun s => cmpIntStrings a s = 0)
        = methods.any fun s => cmpIntStrings a s = 0 := by
      rw [Bool.eq_iff_iff, List.any_eq_true, List.any_eq_true]
      simp only [decide_eq_true_iff]
      refine ⟨fun ⟨s, hs, hac⟩ => ⟨s, hmem' s hs, hac⟩, fun ⟨x, hx, hax⟩ => ?_⟩
      obtain ⟨s, hs, hsx⟩ := hcover x (Q.mem_sort.mpr hx)
      have hxs := (orders_cmpIntStrings.symm trivial trivial).mp hsx
      exact ⟨s, hs, orders_cmpIntStrings.eq_trans trivial trivial trivial hax hxs⟩
    rw [hone, ← hany]

/-- A text is collected once for each vote that lists it, at most. -/
theorem count_allMethods_le :
    (allMethods Qs i votes).count s ≤ votes.countP fun v => s ∈ methodsOf v := by
  induction votes generalizing i with
  | nil => exact le_rfl
  | cons v votes ih =>
    obtain ⟨hnodup, hmem, -⟩ := uniqMethods_classes (Qs i) (methodsOf v) s
    rw [allMethods, List.count_append, List.countP_cons, Nat.add_comm]
    refine Nat.add_le_add ih ?_
    by_cases hs : s ∈ uniqMethods (Qs i) (methodsOf v)
    · rw [if_pos (decide_eq_true (hmem s hs))]
      exact List.nodup_iff_count_le_one.mp hnodup s
    · rw [List.count_eq_zero.mpr hs]
      exact Nat.zero_le _

/-- A class is collected once for each vote that lists a text of it. -/
theorem classCount_allMethods :
    classCount cmpIntStrings (allMethods Qs i votes) a
      = votes.countP fun v => (methodsOf v).any fun s => cmpIntStrings a s = 0 := by
  induction votes generalizing i with
  | nil => rfl
  | cons v votes ih =>
    have hone := (uniqMethods_classes (Qs i) (methodsOf v) a).2.2
    unfold classCount at ih hone ⊢
    rw [allMethods, List.countP_append, List.countP_cons, ih, hone, Nat.add_comm]

theorem mem_allMethods (h : s ∈ allMethods Qs i votes) : ∃ v ∈ votes, s ∈ methodsOf v := by
  have hpos : 0 < votes.countP fun v => s ∈ methodsOf v :=
    (List.count_pos_iff.mpr h).trans_le count_allMethods_le
  obtain ⟨v, hv, hs⟩ := List.countP_pos_iff.mp hpos
  exact ⟨v, hv, by simpa using hs⟩

end Collected

/-! ## What is frequent -/

/-- The texts that `compute_consensus_method` finds acceptable. -/
def acceptableMethods (Qs : ℕ → Qsort) (votes : List VoteStatus) : List Bytes :=
  getFrequentMembers ((Qs votes.length).sort cmpIntStrings (allMethods Qs 0 votes))
    (votes.length * 2 / 3)

/-- The last of them decides. -/
def lastValue (acceptable : List Bytes) : ℤ := (acceptable.getLast?.map methodValue).getD 1

section Frequent

variable {Qs : ℕ → Qsort} {votes : List VoteStatus} {l : List Bytes} {s : Bytes} {m : ℤ} {min : ℕ}

theorem computeConsensusMethod_ok (h : ∀ v ∈ votes, v.Accepted) :
    computeConsensusMethod Qs votes = .ok (lastValue (acceptableMethods Qs votes)) := by
  unfold computeConsensusMethod lastValue acceptableMethods
  rw [addMethods_ok fun v hv => (h v hv).methods]
  simp only [bind, Except.bind]
  cases (getFrequentMembers ((Qs votes.length).sort cmpIntStrings (allMethods Qs 0 votes))
    (votes.length * 2 / 3)).getLast? with
  | none => rfl
  | some best => rfl

theorem mem_getFrequentMembers :
    s ∈ getFrequentMembers l min ↔ ∃ n, (s, n) ∈ equalRuns l ∧ min < n := by
  have hruns : smartlistRuns (fun cur cp => decide (strcmp cp cur = 0)) l = equalRuns l := by
    unfold equalRuns
    congr 1
    funext a b
    rw [decide_eq_decide, strcmp_eq_zero, eq_comm]
  unfold getFrequentMembers
  rw [hruns]
  simp

/-- They are in the order of the list. -/
theorem getFrequentMembers_sublist : (getFrequentMembers l min).Sublist l := by
  have hruns : smartlistRuns (fun cur cp => decide (strcmp cp cur = 0)) l = equalRuns l := by
    unfold equalRuns
    congr 1
    funext a b
    rw [decide_eq_decide, strcmp_eq_zero, eq_comm]
  unfold getFrequentMembers
  rw [hruns]
  exact (List.filter_sublist.map _).trans equalRuns_sublist

/-- The largest value among what is acceptable is the result. -/
theorem lastValue_spec (Qs : ℕ → Qsort) (votes : List VoteStatus) :
    (acceptableMethods Qs votes = [] ∧ lastValue (acceptableMethods Qs votes) = 1)
      ∨ ∃ best ∈ acceptableMethods Qs votes,
        lastValue (acceptableMethods Qs votes) = methodValue best
          ∧ ∀ s ∈ acceptableMethods Qs votes, methodValue s ≤ methodValue best := by
  have hsorted : (acceptableMethods Qs votes).Pairwise fun a b => cmpIntStrings a b ≤ 0 :=
    ((Qs votes.length).sorted (orders_cmpIntStrings.consistentOn fun _ _ => trivial)).sublist
      getFrequentMembers_sublist
  rcases List.eq_nil_or_concat (acceptableMethods Qs votes) with hnil | ⟨front, best, hlast⟩
  · exact .inl ⟨hnil, by rw [hnil]; rfl⟩
  · rw [hlast, List.concat_eq_append] at hsorted ⊢
    refine .inr ⟨best, by simp, by simp [lastValue], fun s hs => ?_⟩
    rcases List.mem_append.mp hs with hs | hs
    · exact methodValue_mono ((List.pairwise_append.mp hsorted).2.2 s hs best (by simp))
    · rw [List.mem_singleton.mp hs]

/-- A run of a text is no longer than there are of it. -/
theorem count_of_textRuns {n : ℕ} (h : (s, n) ∈ equalRuns l) : n ≤ l.count s := by
  have hle := (count_of_equalRuns h).2.2
  convert hle

/-- What is acceptable is listed by most votes. -/
theorem mostVotes_of_acceptable (h : s ∈ acceptableMethods Qs votes) :
    MostVotes votes fun v => s ∈ methodsOf v := by
  obtain ⟨n, hrun, hmin⟩ := mem_getFrequentMembers.mp h
  have hle := count_of_textRuns hrun
  rw [((Qs votes.length).perm cmpIntStrings _).count_eq s] at hle
  have := hle.trans count_allMethods_le
  unfold MostVotes
  omega

theorem MostVotes.mono {p q : VoteStatus → Bool} (h : MostVotes votes p)
    (hpq : ∀ v ∈ votes, p v = true → q v = true) : MostVotes votes q := by
  have hle : votes.countP p ≤ votes.countP q := List.countP_mono_left hpq
  unfold MostVotes at h ⊢
  omega

/-- An acceptable number is a common method. -/
theorem common_of_acceptable (h : s ∈ acceptableMethods Qs votes) (hm : 1 ≤ methodValue s) :
    CommonMethod votes (methodValue s) := by
  refine (mostVotes_of_acceptable h).mono fun v _ hs => ?_
  rw [decide_eq_true_iff] at hs
  exact List.any_eq_true.mpr ⟨s, hs, decide_eq_true ((methodValue_eq hm).mp rfl).1⟩

/-- Any other acceptable text is odd. -/
theorem odd_of_acceptable (h : s ∈ acceptableMethods Qs votes) (hm : ¬ 1 ≤ methodValue s) :
    methodValue s = 0 ∧ OddCommon votes := by
  have hrange := (methodValue_range (s := s)).1
  have hzero : methodValue s = 0 := by omega
  exact ⟨hzero, s, hzero, mostVotes_of_acceptable h⟩

/-- A class that most votes list and that is collected in one spelling is acceptable. -/
theorem acceptable_of_alone (hmost : MostVotes votes fun v =>
      (methodsOf v).any fun x => cmpIntStrings s x = 0)
    (halone : ∀ x ∈ allMethods Qs 0 votes, cmpIntStrings s x = 0 → x = s) :
    s ∈ acceptableMethods Qs votes := by
  let sorted := (Qs votes.length).sort cmpIntStrings (allMethods Qs 0 votes)
  have hperm : sorted.Perm (allMethods Qs 0 votes) := (Qs votes.length).perm _ _
  have halone' : ∀ x ∈ sorted, cmpIntStrings s x = 0 → x = s := fun x hx =>
    halone x (hperm.mem_iff.mp hx)
  have hcount : sorted.count s = classCount cmpIntStrings sorted s := by
    unfold classCount
    rw [List.count]
    refine List.countP_congr fun x hx => ?_
    rw [beq_iff_eq, decide_eq_true_iff]
    exact ⟨fun h => h ▸ orders_cmpIntStrings.self trivial, halone' x hx⟩
  have hclass : classCount cmpIntStrings sorted s
      = votes.countP fun v => (methodsOf v).any fun x => cmpIntStrings s x = 0 := by
    rw [classCount_perm hperm, classCount_allMethods]
  have hmin : votes.length * 2 / 3 < sorted.count s := by
    unfold MostVotes at hmost
    omega
  have hmem : s ∈ sorted := List.count_pos_iff.mp (by omega)
  have hrun := mem_equalRuns orders_cmpIntStrings (fun _ _ => trivial)
    ((Qs votes.length).sorted (orders_cmpIntStrings.consistentOn fun _ _ => trivial)) hmem halone'
  refine mem_getFrequentMembers.mpr ⟨_, hrun, ?_⟩
  convert hmin

/-- Odd texts that are common are acceptable. -/
theorem acceptable_of_odd (hzero : methodValue s = 0)
    (hmost : MostVotes votes fun v => s ∈ methodsOf v) : s ∈ acceptableMethods Qs votes := by
  refine acceptable_of_alone (hmost.mono fun v _ hs => ?_) fun x _ hsx =>
    ((cmpIntStrings_eq_zero.mp hsx).2 hzero).symm
  rw [decide_eq_true_iff] at hs
  exact List.any_eq_true.mpr ⟨s, hs, decide_eq_true (orders_cmpIntStrings.self trivial)⟩

/-- A vote lists a method exactly if it lists a text of its class. -/
theorem listsMethod_eq {v : VoteStatus} (hs : methodValue s = m) (hm : 1 ≤ m) :
    ((methodsOf v).any fun x => cmpIntStrings s x = 0) = listsMethod m v := by
  unfold listsMethod
  congr 1
  funext x
  have hmax : m ≤ intMaxZ := hs ▸ methodValue_range.2
  rw [decide_eq_decide, cmpIntStrings_eq_zero, hs]
  constructor
  · exact fun h => ((methodValue_eq hm).mp h.1.symm).1
  · exact fun h => ⟨((methodValue_eq hm).mpr ⟨h, hmax⟩).symm, fun h0 => by omega⟩

/-- A common method is in the list of some vote. -/
theorem CommonMethod.exists_text (hcommon : CommonMethod votes m) (hm : 1 ≤ m ∧ m ≤ intMaxZ) :
    ∃ s, methodValue s = m ∧ ∃ v ∈ votes, s ∈ methodsOf v := by
  have hpos : 0 < votes.countP (listsMethod m) := by
    unfold CommonMethod MostVotes at hcommon
    omega
  obtain ⟨v, hv, hlists⟩ := List.countP_pos_iff.mp hpos
  obtain ⟨s, hs, hspells⟩ := List.any_eq_true.mp hlists
  exact ⟨s, (methodValue_eq hm.1).mpr ⟨by simpa using hspells, hm.2⟩, v, hv, hs⟩

/-- A common method that is spelled alike is acceptable. -/
theorem acceptable_of_alike (hm : 1 ≤ m ∧ m ≤ intMaxZ) (hcommon : CommonMethod votes m)
    (halike : SpelledAlike votes m) :
    ∃ s ∈ acceptableMethods Qs votes, methodValue s = m := by
  obtain ⟨s, hvalue, v, hv, hs⟩ := hcommon.exists_text hm
  obtain ⟨spelling, halike⟩ := halike
  have heq : s = spelling := halike v hv s hs ((methodValue_eq hm.1).mp hvalue).1
  refine ⟨s, acceptable_of_alone (hcommon.mono fun w _ hw => ?_) fun x hx hsx => ?_, hvalue⟩
  · rw [listsMethod_eq hvalue hm.1]
    exact hw
  · obtain ⟨w, hw, hxw⟩ := mem_allMethods hx
    have hxv : methodValue x = m := (cmpIntStrings_eq_zero.mp hsx).1.symm.trans hvalue
    exact (halike w hw x hxw ((methodValue_eq hm.1).mp hxv).1).trans heq.symm

/-- Of a single vote everything is acceptable. -/
theorem acceptable_of_single (hm : 1 ≤ m ∧ m ≤ intMaxZ) (hcommon : CommonMethod votes m)
    (hsingle : votes.length = 1) : ∃ s ∈ acceptableMethods Qs votes, methodValue s = m := by
  obtain ⟨s, hvalue, v, hv, hs⟩ := hcommon.exists_text hm
  have hclass : 0 < classCount cmpIntStrings (allMethods Qs 0 votes) s := by
    rw [classCount_allMethods]
    exact List.countP_pos_iff.mpr ⟨v, hv, List.any_eq_true.mpr
      ⟨s, hs, decide_eq_true (orders_cmpIntStrings.self trivial)⟩⟩
  obtain ⟨x, hx, hsx⟩ := List.countP_pos_iff.mp hclass
  rw [decide_eq_true_iff] at hsx
  have hmem : x ∈ (Qs votes.length).sort cmpIntStrings (allMethods Qs 0 votes) :=
    (Qsort.mem_sort _).mpr hx
  obtain ⟨n, hrun⟩ := exists_equalRun hmem
  have hpos := (count_of_equalRuns hrun).2.1
  refine ⟨x, mem_getFrequentMembers.mpr ⟨n, hrun, by omega⟩, ?_⟩
  exact (cmpIntStrings_eq_zero.mp hsx).1.symm.trans hvalue

end Frequent

/-! ## What `qsort` can do to other spellings -/

section Spread

variable {votes : List VoteStatus} {s : Bytes} {m : ℤ}

/-- A method that is not spelled alike can be collected in two spellings. -/
theorem exists_spellings (hm : 1 ≤ m ∧ m ≤ intMaxZ) (hcommon : CommonMethod votes m)
    (hmany : votes.length ≠ 1) (hother : ¬ SpelledAlike votes m) :
    ∃ (Qs : ℕ → Qsort) (a b : Bytes), a ∈ allMethods Qs 0 votes ∧ b ∈ allMethods Qs 0 votes
      ∧ methodValue a = m ∧ methodValue b = m ∧ a ≠ b := by
  by_contra hnone
  push Not at hnone
  -- with any choice the class has two elements, which are then equal
  obtain ⟨s, hvalue, -⟩ := hcommon.exists_text hm
  have hclass : ∀ Qs, 2 ≤ classCount cmpIntStrings (allMethods Qs 0 votes) s := by
    intro Qs
    rw [classCount_allMethods]
    have heq : votes.countP (fun v => (methodsOf v).any fun x => cmpIntStrings s x = 0)
        = votes.countP (listsMethod m) :=
      List.countP_congr fun v _ => by rw [listsMethod_eq hvalue hm.1]
    rw [heq]
    unfold CommonMethod MostVotes at hcommon
    have := List.countP_le_length (p := listsMethod m) (l := votes)
    omega
  have hsame : ∀ x, cmpIntStrings s x = 0 → methodValue x = m := fun x hx =>
    (cmpIntStrings_eq_zero.mp hx).1.symm.trans hvalue
  let plain : ℕ → Qsort := fun _ => Qsort.insertion
  obtain ⟨x, hx, hsx⟩ := List.countP_pos_iff.mp (Nat.lt_of_lt_of_le Nat.zero_lt_two (hclass plain))
  have hxm : methodValue x = m := hsame x (by simpa using hsx)
  -- some vote has another spelling, which its sort puts first
  obtain ⟨v, hv, y, hy, hspells, hyx⟩ :
      ∃ v ∈ votes, ∃ y ∈ methodsOf v, Spells y m ∧ y ≠ x := by
    by_contra hall
    push Not at hall
    exact hother ⟨x, hall⟩
  have hym : methodValue y = m := (methodValue_eq hm.1).mpr ⟨hspells, hm.2⟩
  obtain ⟨before, after, hsplit⟩ := List.append_of_mem hv
  obtain ⟨Q, hQ⟩ := Qsort.exists_first orders_cmpIntStrings (fun _ _ => trivial) hy
  let chosen : ℕ → Qsort := fun i => if i = before.length then Q else Qsort.insertion
  have hchosen : allMethods chosen 0 votes = allMethods plain 0 before
      ++ (uniqMethods Q (methodsOf v) ++ allMethods plain (before.length + 1) after) := by
    have hbefore : allMethods chosen 0 before = allMethods plain 0 before :=
      allMethods_congr fun j _ hlt => if_neg (by omega)
    have hafter : allMethods chosen (before.length + 1) after
        = allMethods plain (before.length + 1) after :=
      allMethods_congr fun j hle _ => if_neg (by omega)
    rw [hsplit, allMethods_append, Nat.zero_add, allMethods, hbefore, hafter]
    congr 3
    exact if_pos rfl
  have hplain : allMethods plain 0 votes = allMethods plain 0 before
      ++ (uniqMethods Qsort.insertion (methodsOf v) ++ allMethods plain (before.length + 1) after) := by
    rw [hsplit, allMethods_append, Nat.zero_add, allMethods]
  have hyin : y ∈ allMethods chosen 0 votes := by
    rw [hchosen]
    exact List.mem_append_right _ (List.mem_append_left _ hQ)
  have hcount : 2 ≤ (allMethods chosen 0 votes).count y := by
    refine (hclass chosen).trans (List.countP_mono_left fun z hz hsz => ?_)
    rw [decide_eq_true_iff] at hsz
    exact beq_iff_eq.mpr (hnone chosen z y hz hyin (hsame z hsz) hym)
  -- so it is in the list of another vote as well, and comes first there without a choice
  have honce : (uniqMethods Q (methodsOf v)).count y ≤ 1 :=
    List.nodup_iff_count_le_one.mp (uniqMethods_classes _ _ y).1 y
  have hyplain : y ∈ allMethods plain 0 votes := by
    rw [hchosen, List.count_append, List.count_append] at hcount
    rw [hplain, List.mem_append, List.mem_append]
    by_contra hnot
    push Not at hnot
    rw [List.count_eq_zero.mpr hnot.1, List.count_eq_zero.mpr hnot.2.2] at hcount
    omega
  exact hyx (hnone plain y x hyplain hx hym hxm)

/-- **A method that is not spelled alike can be lost.** -/
theorem exists_lost (hm : 1 ≤ m ∧ m ≤ intMaxZ) (hcommon : CommonMethod votes m)
    (hmany : votes.length ≠ 1) (hother : ¬ SpelledAlike votes m) :
    ∃ Qs : ℕ → Qsort, ∀ s ∈ acceptableMethods Qs votes, methodValue s ≠ m := by
  obtain ⟨Qs, a, b, ha, hb, ham, hbm, hab⟩ := exists_spellings hm hcommon hmany hother
  let all := allMethods Qs 0 votes
  let spellings := all.filter fun x => cmpIntStrings a x = 0
  have hin : ∀ x, x ∈ all → methodValue x = m → x ∈ spellings := fun x hx hxm =>
    List.mem_filter.mpr ⟨hx, decide_eq_true (cmpIntStrings_eq_zero.mpr
      ⟨ham.trans hxm.symm, fun h0 => by omega⟩)⟩
  have hlen : spellings.length ≤ 2 * (votes.length * 2 / 3) := by
    have hclass : spellings.length ≤ votes.length := by
      rw [← List.countP_eq_length_filter]
      change classCount cmpIntStrings all a ≤ _
      rw [classCount_allMethods]
      exact List.countP_le_length
    have hpos : 0 < votes.length := by
      unfold CommonMethod MostVotes at hcommon
      have := List.countP_le_length (p := listsMethod m) (l := votes)
      omega
    omega
  obtain ⟨spread, hperm, hspread⟩ := exists_spread (hin a ha ham) (hin b hb hbm) hab hlen
  obtain ⟨Q, front, back, hsort, hothers⟩ :=
    Qsort.exists_arranged orders_cmpIntStrings (fun _ _ => trivial) trivial hperm
  let chosen : ℕ → Qsort := fun i => if i = votes.length then Q else Qs i
  have hall : allMethods chosen 0 votes = all :=
    allMethods_congr fun j _ hlt => if_neg (by omega)
  refine ⟨chosen, fun s hs hsm => ?_⟩
  obtain ⟨n, hrun, hmin⟩ := mem_getFrequentMembers.mp hs
  have hlast : chosen votes.length = Q := if_pos rfl
  rw [hall, hlast, hsort] at hrun
  have hmem : s ∈ all := by
    have := (count_of_equalRuns hrun).1
    rw [← hsort] at this
    exact Q.mem_sort.mp this
  have hfree : ∀ x ∈ front ++ back, x ∉ spellings := fun x hx hxs =>
    hothers x hx (by simpa using (List.mem_filter.mp hxs).2)
  have := hspread front back hfree s n (hin s hmem hsm) hrun
  omega

end Spread

/-! ## When the method is right -/

section Right

variable {votes : List VoteStatus} {m m' : ℤ}

theorem BestMethod.unique (h : BestMethod votes m) (h' : BestMethod votes m') : m = m' :=
  le_antisymm (h'.greatest m h.common) (h.greatest m' h'.common)

/-- Where nothing is in the way, the last acceptable text is the best method. -/
theorem MethodsClear.right (h : MethodsClear votes) (Qs : ℕ → Qsort) :
    RightMethod votes (lastValue (acceptableMethods Qs votes)) := by
  have hcases := lastValue_spec Qs votes
  rcases h with ⟨m, hbest, ⟨hlo, hhi, hclear⟩ | ⟨rfl, hodd⟩⟩ | ⟨hnone, heven⟩
  · -- nothing acceptable is larger, so it is enough that the method itself is acceptable
    have hfound : (∃ s ∈ acceptableMethods Qs votes, methodValue s = m) →
        lastValue (acceptableMethods Qs votes) = m := by
      rintro ⟨s, hs, hsm⟩
      rcases hcases with ⟨hnil, -⟩ | ⟨best, hin, hval, hmax⟩
      · rw [hnil] at hs
        cases hs
      · have hle := hmax s hs
        have hcommon := common_of_acceptable hin (by omega)
        have := hbest.greatest _ hcommon
        omega
    refine .inl ?_
    rcases hclear with halike | hsingle | ⟨rfl, heven⟩
    · rw [hfound (acceptable_of_alike ⟨hlo, hhi⟩ hbest.common halike)]
      exact hbest
    · rw [hfound (acceptable_of_single ⟨hlo, hhi⟩ hbest.common hsingle)]
      exact hbest
    · rcases hcases with ⟨-, hval⟩ | ⟨best, hin, -⟩
      · rw [hval]
        exact hbest
      · have hpos : 1 ≤ methodValue best := by
          by_contra hodd
          exact heven (odd_of_acceptable hin hodd).2
        have := hbest.greatest _ (common_of_acceptable hin hpos)
        rw [hfound ⟨best, hin, by omega⟩]
        exact hbest
  · obtain ⟨s, hs, hmost⟩ := hodd
    have hin : s ∈ acceptableMethods Qs votes := acceptable_of_odd hs hmost
    rcases hcases with ⟨hnil, -⟩ | ⟨best, hbestin, hval, -⟩
    · rw [hnil] at hin
      cases hin
    · have hzero : methodValue best = 0 := by
        by_contra hne
        have hpos := (methodValue_range (s := best)).1
        have := hbest.greatest _ (common_of_acceptable hbestin (by omega))
        omega
      rw [hval, hzero]
      exact .inl hbest
  · rcases hcases with ⟨-, hval⟩ | ⟨best, hin, -⟩
    · exact .inr ⟨hval, hnone⟩
    · by_cases hpos : 1 ≤ methodValue best
      · exact absurd (common_of_acceptable hin hpos) (hnone _)
      · exact absurd (odd_of_acceptable hin hpos).2 heven

/-- Where it is right whatever `qsort` does, nothing is in the way. -/
theorem methodsClear_of_right
    (h : ∀ Qs, RightMethod votes (lastValue (acceptableMethods Qs votes))) : MethodsClear votes := by
  let plain : ℕ → Qsort := fun _ => Qsort.insertion
  have hcases : ∀ Qs, _ := fun Qs => lastValue_spec Qs votes
  have hoddzero : ∀ Qs, OddCommon votes → (∀ m, CommonMethod votes m → m < 1) →
      lastValue (acceptableMethods Qs votes) = 0 := by
    rintro Qs ⟨s, hs, hmost⟩ hsmall
    have hin : s ∈ acceptableMethods Qs votes := acceptable_of_odd hs hmost
    rcases hcases Qs with ⟨hnil, -⟩ | ⟨best, hbest, hval, -⟩
    · rw [hnil] at hin
      cases hin
    · have hrange := (methodValue_range (s := best)).1
      by_contra hne
      have := hsmall _ (common_of_acceptable hbest (by omega))
      omega
  rcases h plain with hbest | ⟨hone, hnone⟩
  · refine .inl ⟨_, hbest, ?_⟩
    set m := lastValue (acceptableMethods plain votes) with hm
    have hval : ∀ Qs, lastValue (acceptableMethods Qs votes) = m := by
      intro Qs
      rcases h Qs with hbest' | ⟨-, hnone⟩
      · exact hbest'.unique hbest
      · exact absurd hbest.common (hnone m)
    have hrange : 0 ≤ m ∧ m ≤ intMaxZ := by
      rcases hcases plain with ⟨-, hval⟩ | ⟨best, -, hval, -⟩
      · rw [hm, hval]
        exact ⟨by decide, by decide⟩
      · rw [hm, hval]
        exact methodValue_range
    rcases (by omega : 1 ≤ m ∨ m = 0) with hpos | hzero
    · refine .inl ⟨hpos, hrange.2, ?_⟩
      by_contra hnot
      push Not at hnot
      obtain ⟨hother, hmany, hodd⟩ := hnot
      obtain ⟨Qs, hlost⟩ := exists_lost ⟨hpos, hrange.2⟩ hbest.common hmany hother
      rcases hcases Qs with ⟨hnil, hval'⟩ | ⟨best, hin, hval', -⟩
      · -- nothing is left, and the result is one
        obtain ⟨s, hs, hmost⟩ := hodd (by rw [← hval Qs, hval'])
        have hin : s ∈ acceptableMethods Qs votes := acceptable_of_odd hs hmost
        rw [hnil] at hin
        cases hin
      · exact hlost best hin (by rw [← hval', hval])
    · refine .inr ⟨hzero, ?_⟩
      rcases hcases plain with ⟨-, hval'⟩ | ⟨best, hin, hval', -⟩
      · omega
      · exact (odd_of_acceptable hin (by omega)).2
  · refine .inr ⟨hnone, fun hodd => ?_⟩
    have := hoddzero plain hodd fun m hm => absurd hm (hnone m)
    omega

end Right

/-- **When the consensus method is the best common one**, however `qsort` arranges what it finds
equal. -/
theorem consensus_method_right_iff {votes : List VoteStatus} (h : ∀ v ∈ votes, v.Accepted) :
    (∀ Qs : ℕ → Qsort, ∃ m, computeConsensusMethod Qs votes = .ok m ∧ RightMethod votes m)
      ↔ MethodsClear votes := by
  constructor
  · intro hright
    refine methodsClear_of_right fun Qs => ?_
    obtain ⟨m, hm, hbest⟩ := hright Qs
    rw [computeConsensusMethod_ok h] at hm
    rwa [Except.ok.inj hm]
  · exact fun hclear Qs => ⟨_, computeConsensusMethod_ok h, hclear.right Qs⟩

/-- A vote that lists given methods. -/
theorem exists_listing (methods : List Bytes) :
    ∃ v : VoteStatus, v.Accepted ∧ methodsOf v = methods := by
  obtain ⟨v, hv, hmethods, -⟩ := @exists_accepted methods [] (by simp) rfl
  exact ⟨v, hv, by rw [methodsOf, hmethods]; rfl⟩

/-- One authority that lists two methods. -/
theorem consensus_method_single :
    ∃ v : VoteStatus, methodsOf v = [cstring "33", cstring "34"]
      ∧ ∀ Qs : ℕ → Qsort, ∃ m, computeConsensusMethod Qs [v] = .ok m ∧ RightMethod [v] m := by
  obtain ⟨v, hv, hmethods⟩ := exists_listing [cstring "33", cstring "34"]
  have hlists : ∀ m, CommonMethod [v] m ↔ m = 33 ∨ m = 34 := by
    intro m
    have h33 : strtol (cstring "33") = some (33, []) := by decide
    have h34 : strtol (cstring "34") = some (34, []) := by decide
    unfold CommonMethod MostVotes listsMethod
    rw [List.countP_singleton, hmethods]
    by_cases hm : m = 33 ∨ m = 34
    · rcases hm with rfl | rfl <;> simp [Spells, h33, h34]
    · rw [not_or] at hm
      simp [Spells, h33, h34, hm.1, hm.2, Ne.symm hm.1, Ne.symm hm.2]
  refine ⟨v, hmethods, (consensus_method_right_iff fun w hw => List.mem_singleton.mp hw ▸ hv).mpr ?_⟩
  refine .inl ⟨34, ⟨(hlists 34).mpr (.inr rfl), fun m hm => ?_⟩, .inl ⟨by decide, by decide, ?_⟩⟩
  · rcases (hlists m).mp hm with rfl | rfl
    · decide
    · decide
  · exact .inr (.inl rfl)

/-- **A method is lost to its spellings.** Three votes list the method 33, one of them as `033`. -/
theorem consensus_method_spellings :
    ∃ a b : VoteStatus, a.Accepted ∧ b.Accepted
      ∧ methodsOf a = [cstring "33"] ∧ methodsOf b = [cstring "033"]
      ∧ BestMethod [a, b, a] 33
      ∧ ∀ Qs : ℕ → Qsort, computeConsensusMethod Qs [a, b, a] = .ok 1
        ∧ ¬ RightMethod [a, b, a] 1 := by
  obtain ⟨a, ha, hmethodsA⟩ := exists_listing [cstring "33"]
  obtain ⟨b, hb, hmethodsB⟩ := exists_listing [cstring "033"]
  have h33 : strtol (cstring "33") = some (33, []) := by decide
  have h033 : strtol (cstring "033") = some (33, []) := by decide
  have hlists : ∀ m, CommonMethod [a, b, a] m ↔ m = 33 := by
    intro m
    unfold CommonMethod MostVotes listsMethod
    simp only [List.countP_cons, List.countP_nil, hmethodsA, hmethodsB]
    by_cases hm : m = 33
    · simp [Spells, h33, h033, hm]
    · simp [Spells, h33, h033, hm, eq_comm]
  have hbest : BestMethod [a, b, a] 33 :=
    ⟨(hlists 33).mpr rfl, fun m hm => ((hlists m).mp hm).le⟩
  refine ⟨a, b, ha, hb, hmethodsA, hmethodsB, hbest, fun Qs => ⟨?_, ?_⟩⟩
  · have hnil : acceptableMethods Qs [a, b, a] = [] := by
      refine List.eq_nil_iff_forall_not_mem.mpr fun s hs => ?_
      have hmost := mostVotes_of_acceptable hs
      have hne : cstring "33" ≠ cstring "033" := by decide
      unfold MostVotes at hmost
      simp only [List.countP_cons, List.countP_nil, hmethodsA, hmethodsB, List.mem_singleton,
        decide_eq_true_iff] at hmost
      by_cases hs33 : s = cstring "33"
      · rw [if_pos hs33, if_neg (hs33 ▸ hne)] at hmost
        simp at hmost
      · rw [if_neg hs33] at hmost
        split_ifs at hmost <;> simp at hmost
    rw [computeConsensusMethod_ok (by simp [ha, hb]), hnil]
    rfl
  · rintro (hone | ⟨-, hnone⟩)
    · exact absurd (hone.unique hbest) (by decide)
    · exact hnone 33 hbest.common

end Dittor.Tor

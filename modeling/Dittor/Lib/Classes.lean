import Mathlib
import Dittor.Lib.Compare
import Dittor.Lib.Smartlist

/-!
# The classes of a sorted list

A sorted list is walked over run by run: `runsBy` gives the first element of each run and the rest
of it. In a list sorted by a comparison that orders its elements the runs are the classes of the
elements that are equated, each of them whole (`Classes`), and the first elements are in strict
order. What is counted, kept or voted on run by run is so counted of the list
(`smartlistRuns_eq`, `mem_smartlistUniq_iff`, `smartlistGetMostFrequent_spec`).
-/

namespace Dittor.Lib

variable {α : Type}

/-- The runs of a list: the first element of each, and those behind it that are the same. -/
def runsBy (same : α → α → Bool) : List α → List (α × List α)
  | [] => []
  | a :: l => (a, l.takeWhile (same a)) :: runsBy same (l.dropWhile (same a))
termination_by l => l.length
decreasing_by
  have := List.length_dropWhile_le (same a) l
  simp only [List.length_cons]
  omega

section Runs

variable {same : α → α → Bool} {cmp : α → α → ℤ}

theorem runsBy_nil : runsBy same [] = [] := by rw [runsBy]

theorem runsBy_cons {a : α} {l : List α} :
    runsBy same (a :: l)
      = (a, l.takeWhile (same a)) :: runsBy same (l.dropWhile (same a)) := by rw [runsBy]

/-- `smartlistRuns` counts the runs. -/
theorem smartlistRuns_eq_map (l : List α) :
    smartlistRuns same l = (runsBy same l).map fun r => (r.1, r.2.length + 1) := by
  have hgo : ∀ (l : List α) (cur : α) (count : ℕ), smartlistRuns.go same cur count l
      = (cur, count + (l.takeWhile (same cur)).length)
        :: smartlistRuns same (l.dropWhile (same cur)) := by
    intro l
    induction l with
    | nil => intro cur count; rfl
    | cons b l ih =>
      intro cur count
      rw [smartlistRuns.go]
      by_cases hsame : same cur b = true
      · rw [if_pos hsame, ih, List.takeWhile_cons_of_pos hsame, List.dropWhile_cons_of_pos hsame,
          List.length_cons]
        congr 2
        omega
      · rw [if_neg hsame, List.takeWhile_cons_of_neg hsame, List.dropWhile_cons_of_neg hsame]
        rfl
  induction l using runsBy.induct same with
  | case1 => rw [runsBy_nil]; rfl
  | case2 a l ih =>
    rw [runsBy_cons, List.map_cons, ← ih, smartlistRuns, hgo, Nat.add_comm]

/-- `smartlistUniq` leaves the first element of each run. -/
theorem smartlistUniq_eq_map (l : List α) :
    smartlistUniq cmp l = (runsBy (fun a b => cmp a b = 0) l).map Prod.fst := by
  have hgo : ∀ (l : List α) (last : α), last :: smartlistUniq.go cmp last l
      = last :: smartlistUniq cmp (l.dropWhile fun b => cmp last b = 0) := by
    intro l
    induction l with
    | nil => intro last; rfl
    | cons b l ih =>
      intro last
      rw [smartlistUniq.go]
      by_cases hsame : cmp last b = 0
      · rw [if_pos hsame, List.dropWhile_cons_of_pos (by simpa using hsame), ih]
      · rw [if_neg hsame, List.dropWhile_cons_of_neg (by simpa using hsame)]
        rfl
  induction l using runsBy.induct fun a b => decide (cmp a b = 0) with
  | case1 => rw [runsBy_nil]; rfl
  | case2 a l ih => rw [runsBy_cons, List.map_cons, ← ih, smartlistUniq, hgo]

end Runs

/-- The runs are the classes of the list, in strict order. -/
structure Classes (cmp : α → α → ℤ) (l : List α) (runs : List (α × List α)) : Prop where
  sorted : runs.Pairwise fun r r' => cmp r.1 r'.1 < 0
  whole : ∀ r ∈ runs, r.1 :: r.2 = l.filter fun x => cmp r.1 x = 0
  cover : ∀ x ∈ l, ∃ r ∈ runs, cmp r.1 x = 0

section Classes

variable {cmp : α → α → ℤ} {s : Set α} {l : List α} {a : α}

/-- Behind an element its class comes first. -/
theorem takeWhile_class (h : Orders cmp s) (hl : ∀ x ∈ a :: l, x ∈ s)
    (hs : (a :: l).Pairwise fun a b => cmp a b ≤ 0) :
    l.takeWhile (fun b => cmp a b = 0) = l.filter (fun b => cmp a b = 0)
      ∧ l.dropWhile (fun b => cmp a b = 0) = l.filter fun b => cmp a b ≠ 0 := by
  induction l with
  | nil => exact ⟨rfl, rfl⟩
  | cons b l ih =>
    have ha := hl a List.mem_cons_self
    have hb := hl b (by simp)
    obtain ⟨hfirst, hrest⟩ := List.pairwise_cons.mp hs
    obtain ⟨hnext, htail⟩ := List.pairwise_cons.mp hrest
    by_cases hab : cmp a b = 0
    · have hkeep := ih (fun x hx => hl x (by simp at hx ⊢; tauto))
        (List.pairwise_cons.mpr ⟨fun x hx => hfirst x (List.mem_cons_of_mem b hx), htail⟩)
      rw [List.takeWhile_cons_of_pos (by simpa using hab), List.filter_cons_of_pos (by simpa using hab),
        List.dropWhile_cons_of_pos (by simpa using hab), List.filter_cons_of_neg (by simpa using hab)]
      exact ⟨by rw [hkeep.1], hkeep.2⟩
    · -- from here on everything is behind `a`
      have hlt : ∀ x ∈ b :: l, cmp a x ≠ 0 := by
        intro x hx
        have hab' : cmp a b < 0 := lt_of_le_of_ne (hfirst b List.mem_cons_self) hab
        rcases List.mem_cons.mp hx with rfl | hmem
        · exact hab
        · exact (h.lt_of_lt_of_le ha hb (hl x (List.mem_cons_of_mem a hx)) hab' (hnext x hmem)).ne
      rw [List.takeWhile_cons_of_neg (by simpa using hab),
        List.dropWhile_cons_of_neg (by simpa using hab)]
      refine ⟨(List.filter_eq_nil_iff.mpr fun x hx => by simpa using hlt x hx).symm, ?_⟩
      exact (List.filter_eq_self.mpr fun x hx => by simpa using hlt x hx).symm

/-- **The runs of a sorted list are its classes.** -/
theorem runsBy_classes (h : Orders cmp s) (hl : ∀ x ∈ l, x ∈ s)
    (hs : l.Pairwise fun a b => cmp a b ≤ 0) :
    Classes cmp l (runsBy (fun a b => cmp a b = 0) l) := by
  induction l using runsBy.induct fun a b => decide (cmp a b = 0) with
  | case1 =>
    rw [runsBy_nil]
    exact ⟨List.Pairwise.nil, by simp, by simp⟩
  | case2 a l ih =>
    obtain ⟨htake, hdrop⟩ := takeWhile_class h hl hs
    obtain ⟨hfirst, hrest⟩ := List.pairwise_cons.mp hs
    have ha := hl a List.mem_cons_self
    have hbehind : ∀ x ∈ l.filter (fun b => cmp a b ≠ 0), x ∈ l ∧ cmp a x < 0 := by
      intro x hx
      rw [List.mem_filter, decide_eq_true_iff] at hx
      exact ⟨hx.1, lt_of_le_of_ne (hfirst x hx.1) hx.2⟩
    rw [hdrop] at ih
    obtain ⟨hsorted, hwhole, hcover⟩ := ih
      (fun x hx => hl x (List.mem_cons_of_mem a (hbehind x hx).1)) (hrest.filter _)
    rw [runsBy_cons, htake, hdrop]
    have hhead : ∀ r ∈ runsBy (fun a b => decide (cmp a b = 0)) (l.filter fun b => cmp a b ≠ 0),
        r.1 ∈ l.filter fun b => cmp a b ≠ 0 := by
      intro r hr
      have hmem : r.1 ∈ r.1 :: r.2 := List.mem_cons_self
      rw [hwhole r hr] at hmem
      exact List.mem_of_mem_filter hmem
    refine ⟨List.pairwise_cons.mpr ⟨fun r hr => (hbehind r.1 (hhead r hr)).2, hsorted⟩, ?_, ?_⟩
    · intro r hr
      rcases List.mem_cons.mp hr with rfl | hr
      · rw [List.filter_cons_of_pos (by simpa using h.self ha)]
      · obtain ⟨hmem, hlt⟩ := hbehind r.1 (hhead r hr)
        have hrs := hl r.1 (List.mem_cons_of_mem a hmem)
        have hgt : ¬ cmp r.1 a = 0 := by
          have := (h.lt_iff ha hrs).mp hlt
          omega
        rw [List.filter_cons_of_neg (by simpa using hgt), hwhole r hr, List.filter_filter]
        refine List.filter_congr fun x hx => ?_
        have hxs := hl x (List.mem_cons_of_mem a hx)
        by_cases hrx : cmp r.1 x = 0
        · have hax := h.lt_of_lt_of_le ha hrs hxs hlt hrx.le
          simp [hrx, hax.ne]
        · simp [hrx]
    · intro x hx
      by_cases hax : cmp a x = 0
      · exact ⟨_, List.mem_cons_self, hax⟩
      · have hmem : x ∈ l := (List.mem_cons.mp hx).resolve_left fun heq => by
          rw [heq] at hax
          exact hax (h.self ha)
        obtain ⟨r, hr, hrx⟩ := hcover x (List.mem_filter.mpr ⟨hmem, by simpa using hax⟩)
        exact ⟨r, List.mem_cons_of_mem _ hr, hrx⟩

end Classes

/-- How many elements of the list are of the class of `a`. -/
def classCount (cmp : α → α → ℤ) (l : List α) (a : α) : ℕ := l.countP fun x => cmp a x = 0

section Counts

variable {cmp : α → α → ℤ} {s : Set α} {l : List α} {a b x : α} {n : ℕ}

theorem classCount_perm {l' : List α} (h : l.Perm l') : classCount cmp l a = classCount cmp l' a :=
  h.countP_eq _

theorem classCount_congr (h : Orders cmp s) (hl : ∀ x ∈ l, x ∈ s) (ha : a ∈ s) (hb : b ∈ s)
    (hab : cmp a b = 0) : classCount cmp l a = classCount cmp l b :=
  List.countP_congr fun x hx => by simpa using h.congr_left ha hb (hl x hx) hab

/-- In strict order there is at most one element of a class. -/
theorem classCount_strict (h : Orders cmp s) (hl : ∀ x ∈ l, x ∈ s) (ha : a ∈ s)
    (hs : l.Pairwise fun a b => cmp a b < 0) :
    classCount cmp l a = if l.any (fun x => cmp a x = 0) then 1 else 0 := by
  unfold classCount
  induction l with
  | nil => rfl
  | cons b l ih =>
    obtain ⟨hfirst, hrest⟩ := List.pairwise_cons.mp hs
    have hb := hl b List.mem_cons_self
    by_cases hab : cmp a b = 0
    · have hnone : l.countP (fun x => cmp a x = 0) = 0 := by
        refine List.countP_eq_zero.mpr fun x hx hax => ?_
        have hxs := hl x (List.mem_cons_of_mem b hx)
        have hlt := h.lt_of_le_of_lt ha hb hxs hab.le (hfirst x hx)
        rw [decide_eq_true_iff] at hax
        omega
      rw [List.countP_cons_of_pos (by simpa using hab), hnone]
      simp [hab]
    · rw [List.countP_cons_of_neg (by simpa using hab),
        ih (fun x hx => hl x (List.mem_cons_of_mem b hx)) hrest]
      simp [hab]

/-- The runs of a sorted list with their lengths: an element of each class, in order, and how many
elements the class has. -/
structure CountedClasses (cmp : α → α → ℤ) (l : List α) (runs : List (α × ℕ)) : Prop where
  sorted : runs.Pairwise fun r r' => cmp r.1 r'.1 < 0
  mem : ∀ r ∈ runs, r.1 ∈ l ∧ r.2 = classCount cmp l r.1
  cover : ∀ x ∈ l, ∃ r ∈ runs, cmp r.1 x = 0

theorem smartlistRuns_classes (h : Orders cmp s) (hl : ∀ x ∈ l, x ∈ s)
    (hs : l.Pairwise fun a b => cmp a b ≤ 0) :
    CountedClasses cmp l (smartlistRuns (fun a b => cmp a b = 0) l) := by
  obtain ⟨hsorted, hwhole, hcover⟩ := runsBy_classes h hl hs
  rw [smartlistRuns_eq_map]
  refine ⟨List.pairwise_map.mpr hsorted, fun r hr => ?_, fun x hx => ?_⟩
  · obtain ⟨run, hrun, rfl⟩ := List.mem_map.mp hr
    have hmem : run.1 ∈ run.1 :: run.2 := List.mem_cons_self
    refine ⟨?_, ?_⟩
    · rw [hwhole run hrun] at hmem
      exact List.mem_of_mem_filter hmem
    · rw [classCount, List.countP_eq_length_filter, ← hwhole run hrun, List.length_cons]
  · obtain ⟨r, hr, hrx⟩ := hcover x hx
    exact ⟨_, List.mem_map_of_mem hr, hrx⟩

/-- What `smartlistUniq` leaves of a sorted list: an element of each class, in order. -/
theorem smartlistUniq_classes (h : Orders cmp s) (hl : ∀ x ∈ l, x ∈ s)
    (hs : l.Pairwise fun a b => cmp a b ≤ 0) :
    (smartlistUniq cmp l).Pairwise (fun a b => cmp a b < 0)
      ∧ (∀ a ∈ smartlistUniq cmp l, a ∈ l)
      ∧ ∀ x ∈ l, ∃ a ∈ smartlistUniq cmp l, cmp a x = 0 := by
  obtain ⟨hsorted, hwhole, hcover⟩ := runsBy_classes h hl hs
  rw [smartlistUniq_eq_map]
  refine ⟨List.pairwise_map.mpr hsorted, fun a ha => ?_, fun x hx => ?_⟩
  · obtain ⟨r, hr, rfl⟩ := List.mem_map.mp ha
    have hmem : r.1 ∈ r.1 :: r.2 := List.mem_cons_self
    rw [hwhole r hr] at hmem
    exact List.mem_of_mem_filter hmem
  · obtain ⟨r, hr, hrx⟩ := hcover x hx
    exact ⟨_, List.mem_map_of_mem hr, hrx⟩

/-! ## The most frequent element -/

/-- An element of the last one of the largest classes. -/
structure IsMostFrequent (cmp : α → α → ℤ) (l : List α) (m : α) (n : ℕ) : Prop where
  mem : m ∈ l
  count : n = classCount cmp l m
  most : ∀ x ∈ l, classCount cmp l x ≤ n
  last : ∀ x ∈ l, classCount cmp l x = n → cmp x m ≤ 0

/-- The step of the loop over the runs. -/
def keepLonger (best : Option (α × ℕ)) (run : α × ℕ) : Option (α × ℕ) :=
  match best with
  | none => some run
  | some (_, n) => if n ≤ run.2 then some run else best

/-- The loop keeps the last of the longest runs. -/
theorem foldl_keepLonger (runs : List (α × ℕ)) :
    (runs.foldl keepLonger none = none ∧ runs = [])
      ∨ ∃ front best back, runs.foldl keepLonger none = some best ∧ runs = front ++ best :: back
        ∧ (∀ r ∈ front, r.2 ≤ best.2) ∧ ∀ r ∈ back, r.2 < best.2 := by
  induction runs using List.reverseRecOn with
  | nil => exact .inl ⟨rfl, rfl⟩
  | append_singleton runs run ih =>
    rw [List.foldl_append, List.foldl_cons, List.foldl_nil]
    refine .inr ?_
    rcases ih with ⟨hnone, rfl⟩ | ⟨front, best, back, hbest, hruns, hfront, hback⟩
    · rw [hnone]
      exact ⟨[], run, [], rfl, rfl, by simp, by simp⟩
    · rw [hbest, keepLonger]
      by_cases hlonger : best.2 ≤ run.2
      · rw [if_pos hlonger]
        refine ⟨runs, run, [], rfl, rfl, fun r hr => ?_, by simp⟩
        rw [hruns, List.mem_append, List.mem_cons] at hr
        rcases hr with hr | rfl | hr
        · exact (hfront r hr).trans hlonger
        · exact hlonger
        · exact (hback r hr).le.trans hlonger
      · rw [if_neg hlonger]
        refine ⟨front, best, back ++ [run], rfl, by simp [hruns], hfront, fun r hr => ?_⟩
        rcases List.mem_append.mp hr with hr | hr
        · exact hback r hr
        · rw [List.mem_singleton.mp hr]
          omega

/-- **It is found in a sorted list.** -/
theorem smartlistGetMostFrequent_spec (h : Orders cmp s) (hl : ∀ x ∈ l, x ∈ s)
    (hs : l.Pairwise fun a b => cmp a b ≤ 0) :
    (smartlistGetMostFrequent cmp l = none ↔ l = [])
      ∧ ∀ m n, smartlistGetMostFrequent cmp l = some (m, n) → IsMostFrequent cmp l m n := by
  obtain ⟨hsorted, hmem, hcover⟩ := smartlistRuns_classes h hl hs
  have hfold : smartlistGetMostFrequent cmp l
      = (smartlistRuns (fun a b => decide (cmp a b = 0)) l).foldl keepLonger none := rfl
  rw [hfold]
  rcases foldl_keepLonger (smartlistRuns (fun a b => decide (cmp a b = 0)) l) with
    ⟨hnone, hruns⟩ | ⟨front, best, back, hbest, hruns, hfront, hback⟩
  · rw [hnone]
    refine ⟨iff_of_true rfl ?_, by simp⟩
    refine List.eq_nil_iff_forall_not_mem.mpr fun x hx => ?_
    obtain ⟨r, hr, -⟩ := hcover x hx
    rw [hruns] at hr
    exact List.not_mem_nil hr
  · have hin : best ∈ smartlistRuns (fun a b => decide (cmp a b = 0)) l := by
      rw [hruns]
      simp
    rw [hbest]
    refine ⟨iff_of_false (by simp) fun hnil => ?_, fun m n hmn => ?_⟩
    · have := (hmem best hin).1
      rw [hnil] at this
      exact List.not_mem_nil this
    · obtain rfl := Option.some.inj hmn
      obtain ⟨hm, hn⟩ := hmem _ hin
      -- the run of an element, and where it stands
      have hrun : ∀ x ∈ l, ∃ r ∈ front ++ (m, n) :: back, cmp r.1 x = 0 ∧ r.1 ∈ l
          ∧ classCount cmp l x = r.2 := by
        intro x hx
        obtain ⟨r, hr, hrx⟩ := hcover x hx
        obtain ⟨hrl, hrn⟩ := hmem r hr
        refine ⟨r, hruns ▸ hr, hrx, hrl, ?_⟩
        rw [hrn, classCount_congr h hl (hl _ hrl) (hl x hx) hrx]
      rw [hruns, List.pairwise_append] at hsorted
      refine ⟨hm, hn, fun x hx => ?_, fun x hx hxn => ?_⟩
      · obtain ⟨r, hr, -, -, hcount⟩ := hrun x hx
        rw [hcount]
        rw [List.mem_append, List.mem_cons] at hr
        rcases hr with hr | rfl | hr
        · exact hfront r hr
        · exact le_rfl
        · exact (hback r hr).le
      · obtain ⟨r, hr, hrx, hrl, hcount⟩ := hrun x hx
        have hxr := ((h.symm (hl _ hrl) (hl x hx)).mp hrx).le
        refine h.trans x (hl x hx) r.1 (hl _ hrl) m (hl m hm) hxr ?_
        rw [List.mem_append, List.mem_cons] at hr
        rcases hr with hr | rfl | hr
        · exact (hsorted.2.2 r hr (m, n) List.mem_cons_self).le
        · exact (h.self (hl _ hm)).le
        · have := hback r hr
          omega

/-- Two of them are of one class. -/
theorem IsMostFrequent.unique {l' : List α} {m m' : α} {n n' : ℕ} (h : Orders cmp s)
    (hl : ∀ x ∈ l, x ∈ s) (hperm : l.Perm l') (hm : IsMostFrequent cmp l m n)
    (hm' : IsMostFrequent cmp l' m' n') : n = n' ∧ cmp m m' = 0 := by
  have hmem' : m' ∈ l := hperm.mem_iff.mpr hm'.mem
  have hcount' : n' = classCount cmp l m' := hm'.count.trans (classCount_perm hperm).symm
  have hcount : n = classCount cmp l' m := hm.count.trans (classCount_perm hperm)
  have hle : n' ≤ n := hcount' ▸ hm.most m' hmem'
  have hle' : n ≤ n' := hcount ▸ hm'.most m (hperm.mem_iff.mp hm.mem)
  have heq : n = n' := le_antisymm hle' hle
  have hfirst := hm.last m' hmem' (by omega)
  have hsecond := hm'.last m (hperm.mem_iff.mp hm.mem) (by omega)
  have := h.swap m (hl m hm.mem) m' (hl m' hmem')
  have := h.swap m' (hl m' hmem') m (hl m hm.mem)
  exact ⟨heq, by omega⟩

end Counts

/-- The most frequent element of a list that is sorted for this. -/
def mostFrequent (Q : Qsort) (cmp : α → α → ℤ) (l : List α) : Option α :=
  (smartlistGetMostFrequent cmp (Q.sort cmp l)).map Prod.fst

/-- Nothing is in the list more often; there is nothing if the list is empty. -/
def MostFrequentIn [DecidableEq α] (l : List α) : Option α → Prop
  | none => l = []
  | some m => m ∈ l ∧ ∀ x ∈ l, l.count x ≤ l.count m

section MostFrequent

variable {Q Q' : Qsort} {cmp : α → α → ℤ} {l l' : List α}

theorem mostFrequent_cases (h : Orders cmp Set.univ) :
    (mostFrequent Q cmp l = none ∧ l = [])
      ∨ ∃ m n, mostFrequent Q cmp l = some m ∧ IsMostFrequent cmp (Q.sort cmp l) m n := by
  obtain ⟨hnone, hsome⟩ := smartlistGetMostFrequent_spec h (fun _ _ => trivial)
    (Q.sorted (h.consistentOn (l := l) fun _ _ => trivial))
  unfold mostFrequent
  cases hm : smartlistGetMostFrequent cmp (Q.sort cmp l) with
  | none =>
    refine .inl ⟨rfl, ?_⟩
    have hnil := hnone.mp hm
    rw [← List.length_eq_zero_iff, Q.length_sort, List.length_eq_zero_iff] at hnil
    exact hnil
  | some r => exact .inr ⟨r.1, r.2, rfl, hsome r.1 r.2 hm⟩

/-- Where elements are equated with themselves only, it is found. -/
theorem mostFrequent_spec [DecidableEq α] (h : Orders cmp Set.univ)
    (hsep : ∀ a b, cmp a b = 0 → a = b) : MostFrequentIn l (mostFrequent Q cmp l) := by
  have hcount : ∀ x, classCount cmp (Q.sort cmp l) x = l.count x := by
    intro x
    rw [classCount_perm (Q.perm cmp l), classCount, List.count]
    refine List.countP_congr fun y _ => ?_
    rw [decide_eq_true_iff, beq_iff_eq]
    exact ⟨fun heq => (hsep x y heq).symm, fun heq => heq ▸ h.self trivial⟩
  rcases mostFrequent_cases (Q := Q) (l := l) h with ⟨hnone, hnil⟩ | ⟨m, n, hm, hspec⟩
  · rw [hnone]
    exact hnil
  · rw [hm]
    refine ⟨Q.mem_sort.mp hspec.mem, fun x hx => ?_⟩
    rw [← hcount x, ← hcount m, ← hspec.count]
    exact hspec.most x (Q.mem_sort.mpr hx)

/-- It does not depend on the order of the list. -/
theorem mostFrequent_perm (h : Orders cmp Set.univ) (hsep : ∀ a b, cmp a b = 0 → a = b)
    (hperm : l.Perm l') : mostFrequent Q cmp l = mostFrequent Q' cmp l' := by
  have hsorted : (Q.sort cmp l).Perm (Q'.sort cmp l') :=
    ((Q.perm cmp l).trans hperm).trans (Q'.perm cmp l').symm
  rcases mostFrequent_cases (Q := Q) (l := l) h with ⟨hnone, hnil⟩ | ⟨m, n, hm, hspec⟩ <;>
    rcases mostFrequent_cases (Q := Q') (l := l') h with ⟨hnone', hnil'⟩ | ⟨m', n', hm', hspec'⟩
  · rw [hnone, hnone']
  · rw [hnil] at hsorted
    have := hsorted.mem_iff.mpr hspec'.mem
    simp at this
  · rw [hnil'] at hsorted
    have := hsorted.mem_iff.mp hspec.mem
    simp at this
  · rw [hm, hm', hsep m m' (hspec.unique h (fun _ _ => trivial) hsorted hspec').2]

end MostFrequent

end Dittor.Lib

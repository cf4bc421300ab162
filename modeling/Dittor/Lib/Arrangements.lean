import Mathlib
import Dittor.Lib.Classes

/-!
# Arrangements of equal elements

Where a comparison equates elements, `qsort` may leave them in any order: every sorted
rearrangement of an array is what some `qsort` makes of it (`Qsort.exists_sort`). So any element
of a class can come out first (`Qsort.exists_first`), and a class can come out in any order
(`Qsort.exists_arranged`).

A walk that groups by equality over an array sorted by such a comparison finds the elements of a
class together only if they are all equal (`mem_equalRuns`); otherwise one of them can stand between
the others (`equalRuns_cut`).
-/

namespace Dittor.Lib

variable {α : Type}

/-! ## Sorted rearrangements -/

/-- **Every sorted rearrangement is the work of some `qsort`.** -/
theorem Qsort.exists_sort {cmp : α → α → ℤ} {l l' : List α} (hperm : l'.Perm l)
    (hsorted : l'.Pairwise fun a b => cmp a b ≤ 0) : ∃ Q : Qsort, Q.sort cmp l = l' := by
  classical
  -- like `insertion`, but for this array
  let sort : (x : Σ β : Type, (β → β → ℤ) × List β) → List x.1 := fun x =>
    if h : x = ⟨α, cmp, l⟩ then h ▸ l' else Qsort.insertion.sort x.2.1 x.2.2
  have hsort : sort ⟨α, cmp, l⟩ = l' := by simp [sort]
  have hother : ∀ x, x ≠ ⟨α, cmp, l⟩ → sort x = Qsort.insertion.sort x.2.1 x.2.2 := fun x hx => by
    simp [sort, hx]
  refine ⟨⟨fun {β} cmp' m => sort ⟨β, cmp', m⟩, fun {β} cmp' m => ?_, fun {β cmp' m} hcons => ?_⟩,
    hsort⟩
  · by_cases h : (⟨β, cmp', m⟩ : Σ β : Type, (β → β → ℤ) × List β) = ⟨α, cmp, l⟩
    · cases h
      rw [hsort]
      exact hperm
    · rw [hother _ h]
      exact Qsort.insertion.perm _ _
  · by_cases h : (⟨β, cmp', m⟩ : Σ β : Type, (β → β → ℤ) × List β) = ⟨α, cmp, l⟩
    · cases h
      rw [hsort]
      exact hsorted
    · rw [hother _ h]
      exact Qsort.insertion.sorted hcons

section Arranged

variable {cmp : α → α → ℤ} {s : Set α} {l : List α} {a : α}

/-- **A class can come out in any order.** -/
theorem Qsort.exists_arranged (h : Orders cmp s) (hl : ∀ x ∈ l, x ∈ s) (ha : a ∈ s) {r : List α}
    (hr : r.Perm (l.filter fun x => cmp a x = 0)) :
    ∃ (Q : Qsort) (front back : List α), Q.sort cmp l = front ++ r ++ back
      ∧ ∀ x ∈ front ++ back, cmp a x ≠ 0 := by
  let m := Qsort.insertion.sort cmp l
  have hperm : m.Perm l := Qsort.insertion.perm cmp l
  have hm : ∀ x ∈ m, x ∈ s := fun x hx => hl x (hperm.mem_iff.mp hx)
  have hsorted : m.Pairwise fun x y => cmp x y ≤ 0 := Qsort.insertion.sorted (h.consistentOn hl)
  let front := m.filter fun x => cmp x a < 0
  let back := m.filter fun x => cmp a x < 0
  have hfront : ∀ x ∈ front, x ∈ s ∧ cmp x a < 0 := fun x hx => by
    rw [List.mem_filter, decide_eq_true_iff] at hx
    exact ⟨hm x hx.1, hx.2⟩
  have hback : ∀ x ∈ back, x ∈ s ∧ cmp a x < 0 := fun x hx => by
    rw [List.mem_filter, decide_eq_true_iff] at hx
    exact ⟨hm x hx.1, hx.2⟩
  have hclass : ∀ x ∈ r, x ∈ s ∧ cmp a x = 0 := fun x hx => by
    have hx' := hr.mem_iff.mp hx
    rw [List.mem_filter, decide_eq_true_iff] at hx'
    exact ⟨hl x hx'.1, hx'.2⟩
  -- an element is in front of the class, in it or behind it
  have hsplit : (front ++ r ++ back).Perm l := by
    have hrest : (r ++ back).Perm (m.filter fun x => !decide (cmp x a < 0)) := by
      have hparts := List.filter_append_perm (fun x => decide (cmp a x = 0))
        (m.filter fun x => !decide (cmp x a < 0))
      rw [List.filter_filter, List.filter_filter] at hparts
      have hin : m.filter (fun x => decide (cmp a x = 0) && !decide (cmp x a < 0))
          = m.filter fun x => decide (cmp a x = 0) := by
        refine List.filter_congr fun x hx => ?_
        have := h.lt_iff (hm x hx) ha
        by_cases hx0 : cmp a x = 0
        · simp [hx0, show ¬ cmp x a < 0 by omega]
        · simp [hx0]
      have hout : m.filter (fun x => !decide (cmp a x = 0) && !decide (cmp x a < 0)) = back := by
        refine List.filter_congr fun x hx => ?_
        have := h.lt_iff (hm x hx) ha
        rw [Bool.eq_iff_iff]
        simp only [Bool.and_eq_true, Bool.not_eq_true', decide_eq_false_iff_not, decide_eq_true_iff]
        omega
      rw [hin, hout] at hparts
      exact ((hr.trans (hperm.symm.filter _)).append_right back).trans hparts
    have hall := List.filter_append_perm (fun x => decide (cmp x a < 0)) m
    rw [List.append_assoc]
    exact ((hrest.append_left front).trans hall).trans hperm
  have hpair : (front ++ r ++ back).Pairwise fun x y => cmp x y ≤ 0 := by
    rw [List.pairwise_append, List.pairwise_append]
    refine ⟨⟨hsorted.filter _, ?_, fun x hx y hy => ?_⟩, hsorted.filter _, fun x hx y hy => ?_⟩
    · refine List.pairwise_of_forall_mem_list fun x hx y hy => ?_
      have hxa := (h.symm ha (hclass x hx).1).mp (hclass x hx).2
      exact (h.eq_trans (hclass x hx).1 ha (hclass y hy).1 hxa (hclass y hy).2).le
    · exact h.trans x (hfront x hx).1 a ha y (hclass y hy).1 (hfront x hx).2.le (hclass y hy).2.le
    · rcases List.mem_append.mp hx with hx | hx
      · exact h.trans x (hfront x hx).1 a ha y (hback y hy).1 (hfront x hx).2.le (hback y hy).2.le
      · have hxa := (h.symm ha (hclass x hx).1).mp (hclass x hx).2
        exact h.trans x (hclass x hx).1 a ha y (hback y hy).1 hxa.le (hback y hy).2.le
  obtain ⟨Q, hQ⟩ := Qsort.exists_sort hsplit hpair
  refine ⟨Q, front, back, hQ, fun x hx => ?_⟩
  rcases List.mem_append.mp hx with hx | hx
  · have := (h.lt_iff (hfront x hx).1 ha).mp (hfront x hx).2
    omega
  · exact (hback x hx).2.ne

/-- An element can be made the one that is left of its class. -/
theorem Qsort.exists_first (h : Orders cmp s) (hl : ∀ x ∈ l, x ∈ s) (ha : a ∈ l) :
    ∃ Q : Qsort, a ∈ smartlistUniq cmp (Q.sort cmp l) := by
  have has := hl a ha
  obtain ⟨before, after, hsplit⟩ := List.append_of_mem
    (List.mem_filter.mpr ⟨ha, by simpa using h.self has⟩ : a ∈ l.filter fun x => cmp a x = 0)
  have hr : (a :: (before ++ after)).Perm (l.filter fun x => cmp a x = 0) := by
    rw [hsplit]
    exact List.perm_middle.symm
  obtain ⟨Q, front, back, hsort, hothers⟩ := Qsort.exists_arranged h hl has hr
  refine ⟨Q, ?_⟩
  have hs : ∀ x ∈ Q.sort cmp l, x ∈ s := fun x hx => hl x (Q.mem_sort.mp hx)
  obtain ⟨-, hwhole, hcover⟩ := runsBy_classes h hs (Q.sorted (h.consistentOn hl))
  obtain ⟨run, hrun, hra⟩ := hcover a (Q.mem_sort.mpr ha)
  rw [smartlistUniq_eq_map]
  refine List.mem_map.mpr ⟨run, hrun, ?_⟩
  -- its run is the class as it was arranged
  have hrs : run.1 ∈ s := by
    have hmem : run.1 ∈ run.1 :: run.2 := List.mem_cons_self
    rw [hwhole run hrun] at hmem
    exact hs _ (List.mem_of_mem_filter hmem)
  have hclass : run.1 :: run.2 = a :: (before ++ after) := by
    have hin : ∀ x ∈ front ++ (a :: (before ++ after)) ++ back, x ∈ s := fun x hx =>
      hs x (by rw [hsort]; exact hx)
    have hnone : ∀ part : List α, (∀ x ∈ part, x ∈ front ++ back) →
        part.filter (fun x => cmp run.1 x = 0) = [] := fun part hpart =>
      List.filter_eq_nil_iff.mpr fun x hx => by
        have hx' := List.mem_append.mp (hpart x hx)
        have hxs := hin x (by simp only [List.mem_append]; tauto)
        simpa [h.congr_left hrs has hxs hra] using hothers x (hpart x hx)
    have hself : (a :: (before ++ after)).filter (fun x => cmp run.1 x = 0)
        = a :: (before ++ after) := by
      refine List.filter_eq_self.mpr fun x hx => ?_
      have hxa := hr.mem_iff.mp hx
      rw [List.mem_filter, decide_eq_true_iff] at hxa
      exact decide_eq_true ((h.congr_left hrs has (hl x hxa.1) hra).mpr hxa.2)
    rw [hwhole run hrun, hsort, List.filter_append, List.filter_append, hself,
      hnone front fun x hx => List.mem_append_left _ hx,
      hnone back fun x hx => List.mem_append_right _ hx, List.nil_append, List.append_nil]
  exact (List.cons.inj hclass).1

end Arranged

/-! ## Grouping by equality -/

section EqualRuns

variable [DecidableEq α] {cmp : α → α → ℤ} {s : Set α} {l front back : List α} {a b : α} {n : ℕ}

/-- The runs of equal elements. -/
def equalRuns (l : List α) : List (α × ℕ) := smartlistRuns (fun a b => a = b) l

theorem equalRuns_cons :
    equalRuns (a :: l)
      = (a, (l.takeWhile fun b => a = b).length + 1) :: equalRuns (l.dropWhile fun b => a = b) := by
  rw [equalRuns, smartlistRuns_eq_map, runsBy_cons, List.map_cons, ← smartlistRuns_eq_map]
  rfl

/-- The copies of an element are in the first run, if it is one of this element, and behind it. -/
theorem count_run : (b :: l).count a
    = (if b = a then (l.takeWhile fun c => b = c).length + 1 else 0)
      + (l.dropWhile fun c => b = c).count a := by
  have hin : ∀ c ∈ l.takeWhile fun c => b = c, b = c := fun c hc => by
    simpa using List.mem_takeWhile_imp (p := fun c => decide (b = c)) hc
  have hsplit : l.count a = (l.takeWhile fun c => b = c).count a
      + (l.dropWhile fun c => b = c).count a := by
    rw [← List.count_append, List.takeWhile_append_dropWhile]
  by_cases hab : b = a
  · have htake : (l.takeWhile fun c => b = c).count a = (l.takeWhile fun c => b = c).length :=
      List.count_eq_length.mpr fun c hc => hab ▸ hin c hc
    have hcons : (b :: l).count a = l.count a + 1 := by rw [hab, List.count_cons_self]
    rw [if_pos hab, hcons, hsplit, htake]
    omega
  · have htake : (l.takeWhile fun c => b = c).count a = 0 :=
      List.count_eq_zero.mpr fun hmem => hab (hin a hmem)
    rw [if_neg hab, List.count_cons_of_ne hab, hsplit, htake]

/-- A run is of an element of the list, and no longer than there are of it. -/
theorem count_of_equalRuns (h : (a, n) ∈ equalRuns l) : a ∈ l ∧ 0 < n ∧ n ≤ l.count a := by
  induction l using runsBy.induct fun a b : α => decide (a = b) with
  | case1 => cases h
  | case2 b l ih =>
    have hcount := count_run (l := l) (a := a) (b := b)
    rw [equalRuns_cons] at h
    rcases List.mem_cons.mp h with heq | h
    · obtain ⟨hab, hn⟩ := Prod.mk.inj heq
      rw [if_pos hab.symm] at hcount
      rw [hab] at hcount ⊢
      exact ⟨List.mem_cons_self, by omega, by omega⟩
    · obtain ⟨hmem, hpos, hle⟩ := ih h
      have hsub : (l.dropWhile fun c => b = c).Sublist (b :: l) :=
        (List.dropWhile_sublist _).trans (List.sublist_cons_self b l)
      exact ⟨hsub.subset hmem, hpos, hle.trans (hsub.count_le a)⟩

/-- The runs stand in the order of the list. -/
theorem equalRuns_sublist : ((equalRuns l).map Prod.fst).Sublist l := by
  induction l using runsBy.induct fun a b : α => decide (a = b) with
  | case1 => exact List.Sublist.slnil
  | case2 b l ih =>
    rw [equalRuns_cons, List.map_cons]
    exact (ih.trans (List.dropWhile_sublist _)).cons_cons b

/-- All elements of a list have a run. -/
theorem exists_equalRun (h : a ∈ l) : ∃ n, (a, n) ∈ equalRuns l := by
  induction l using runsBy.induct fun a b : α => decide (a = b) with
  | case1 => cases h
  | case2 b l ih =>
    rw [equalRuns_cons]
    by_cases hab : b = a
    · exact ⟨_, by rw [hab]; exact List.mem_cons_self⟩
    · have hmem : a ∈ l := (List.mem_cons.mp h).resolve_left fun heq => hab heq.symm
      rw [← List.takeWhile_append_dropWhile (p := fun c => decide (b = c)) (l := l)] at hmem
      rcases List.mem_append.mp hmem with hmem | hmem
      · have := List.mem_takeWhile_imp (p := fun c => decide (b = c)) hmem
        exact absurd (by simpa using this) hab
      · obtain ⟨n, hn⟩ := ih hmem
        exact ⟨n, List.mem_cons_of_mem _ hn⟩

/-- An element that is equated with no other has all its copies in one run. -/
theorem mem_equalRuns (h : Orders cmp s) (hl : ∀ x ∈ l, x ∈ s)
    (hs : l.Pairwise fun a b => cmp a b ≤ 0) (ha : a ∈ l)
    (halone : ∀ x ∈ l, cmp a x = 0 → x = a) : (a, l.count a) ∈ equalRuns l := by
  induction l using runsBy.induct fun a b : α => decide (a = b) with
  | case1 => cases ha
  | case2 b l ih =>
    have hb := hl b List.mem_cons_self
    obtain ⟨-, hrest⟩ := List.pairwise_cons.mp hs
    rw [equalRuns_cons]
    have hsub : (l.dropWhile fun c => b = c).Sublist l := List.dropWhile_sublist _
    have hcount := count_run (l := l) (a := a) (b := b)
    by_cases hab : b = a
    · -- what comes behind the run of `a` is behind its class
      have hnone : (l.dropWhile fun c => b = c).count a = 0 := by
        refine List.count_eq_zero.mpr fun hmem => ?_
        cases hdrop : l.dropWhile fun c => b = c with
        | nil =>
          rw [hdrop] at hmem
          cases hmem
        | cons c rest =>
          rw [hdrop] at hsub hmem
          have hc : c ∈ l := hsub.subset List.mem_cons_self
          have hca : c ≠ a := by
            have hhead := List.head?_dropWhile_not (fun c => decide (b = c)) l
            rw [hdrop] at hhead
            simpa [hab, eq_comm] using hhead
          have hlt : cmp a c < 0 := lt_of_le_of_ne (hab ▸ (List.pairwise_cons.mp hs).1 c hc)
            fun heq => hca (halone c (List.mem_cons_of_mem b hc) heq)
          have hle : cmp c a ≤ 0 := by
            rcases List.mem_cons.mp hmem with heq | hmem
            · exact absurd heq.symm hca
            · exact (List.pairwise_cons.mp (hrest.sublist hsub)).1 a hmem
          have has := hl a ha
          have := (h.lt_iff has (hl c (List.mem_cons_of_mem b hc))).mp hlt
          omega
      rw [if_pos hab, hnone] at hcount
      rw [hcount, hab]
      exact List.mem_cons_self
    · have hmem : a ∈ l.dropWhile fun c => b = c := by
        have hal : a ∈ l := (List.mem_cons.mp ha).resolve_left fun heq => hab heq.symm
        rw [← List.takeWhile_append_dropWhile (p := fun c => decide (b = c)) (l := l)] at hal
        refine (List.mem_append.mp hal).resolve_left fun hin => hab ?_
        simpa using List.mem_takeWhile_imp (p := fun c => decide (b = c)) hin
      have hrun := ih (fun x hx => hl x (List.mem_cons_of_mem b (hsub.subset hx)))
        (hrest.sublist hsub) hmem fun x hx => halone x (List.mem_cons_of_mem b (hsub.subset hx))
      rw [if_neg hab, Nat.zero_add] at hcount
      rw [hcount]
      exact List.mem_cons_of_mem _ hrun

/-- A run behind an element that is another one. -/
theorem equalRuns_cons_cut (h : (a, n) ∈ equalRuns (b :: back)) (hab : a ≠ b) :
    n ≤ back.count a := by
  rw [equalRuns_cons] at h
  rcases List.mem_cons.mp h with heq | h
  · exact absurd (Prod.mk.inj heq).1 hab
  · exact (count_of_equalRuns h).2.2.trans ((List.dropWhile_sublist _).count_le a)

/-- A run does not reach over another element. -/
theorem equalRuns_cut (h : (a, n) ∈ equalRuns (front ++ b :: back)) (hab : a ≠ b) :
    n ≤ front.count a ∨ n ≤ back.count a := by
  induction front using runsBy.induct fun a b : α => decide (a = b) with
  | case1 => exact .inr (equalRuns_cons_cut h hab)
  | case2 c front ih =>
    rw [List.cons_append, equalRuns_cons] at h
    rcases List.mem_cons.mp h with heq | h
    · obtain ⟨hac, hn⟩ := Prod.mk.inj heq
      have hcount := count_run (l := front) (a := a) (b := c)
      have hcb : ¬ c = b := fun h => hab (hac.trans h)
      rw [if_pos hac.symm] at hcount
      rw [List.takeWhile_append, List.takeWhile_cons_of_neg (by simpa using hcb),
        List.append_nil] at hn
      split_ifs at hn <;> exact .inl (by omega)
    · rw [List.dropWhile_append] at h
      split_ifs at h with hempty
      · by_cases hcb : c = b
        · rw [List.dropWhile_cons_of_pos (by simpa using hcb)] at h
          exact .inr ((count_of_equalRuns h).2.2.trans ((List.dropWhile_sublist _).count_le a))
        · rw [List.dropWhile_cons_of_neg (by simpa using hcb)] at h
          exact .inr (equalRuns_cons_cut h hab)
      · have hsub : (front.dropWhile fun d => c = d).Sublist (c :: front) :=
          (List.dropWhile_sublist _).trans (List.sublist_cons_self c front)
        exact (ih h).imp_left fun hle => hle.trans (hsub.count_le a)

/-- **Elements that are not all equal can be spread**: in some order no run among others is longer
than half of them, rounded up. -/
theorem exists_spread {r : List α} {t : ℕ} (ha : a ∈ r) (hb : b ∈ r) (hab : a ≠ b)
    (ht : r.length ≤ 2 * t) :
    ∃ r' : List α, r'.Perm r ∧ ∀ front back : List α, (∀ x ∈ front ++ back, x ∉ r) →
      ∀ x n, x ∈ r → (x, n) ∈ equalRuns (front ++ r' ++ back) → n ≤ t := by
  have htotal : ∀ r' front back : List α, r'.Perm r → (∀ x ∈ front ++ back, x ∉ r) →
      ∀ x ∈ r, (front ++ r' ++ back).count x = r.count x := by
    intro r' front back hperm hothers x hx
    have hfront : front.count x = 0 := List.count_eq_zero.mpr fun h =>
      hothers x (List.mem_append_left _ h) hx
    have hback : back.count x = 0 := List.count_eq_zero.mpr fun h =>
      hothers x (List.mem_append_right _ h) hx
    rw [List.count_append, List.count_append, hfront, hback, hperm.count_eq x]
    omega
  by_cases hmany : ∃ x ∈ r, t < r.count x
  · -- one of the others goes into the middle of what there is many of
    obtain ⟨x, hx, hmany⟩ := hmany
    obtain ⟨y, hy, hyx⟩ : ∃ y ∈ r, y ≠ x := by
      by_cases hxa : a = x
      · exact ⟨b, hb, fun h => hab (hxa.trans h.symm)⟩
      · exact ⟨a, ha, hxa⟩
    set k := r.count x with hk
    let others := r.filter fun z => !decide (z = x)
    have hparts : (List.replicate k x ++ others).Perm r := by
      have hcopies : r.filter (fun z => decide (z = x)) = List.replicate k x := List.filter_eq x
      rw [← hcopies]
      exact List.filter_append_perm (fun z => decide (z = x)) r
    have hnone : x ∉ others := fun h => by simp [others] at h
    have hmem : y ∈ others := List.mem_filter.mpr ⟨hy, by simpa using hyx⟩
    have hpos : 0 < others.length := List.length_pos_of_mem hmem
    have hlen : k + others.length = r.length := by
      rw [← hparts.length_eq, List.length_append, List.length_replicate]
    let r' := List.replicate (k / 2) x ++ y :: (List.replicate (k - k / 2) x ++ others.erase y)
    have hperm : r'.Perm r := by
      have hhalves : List.replicate k x
          = List.replicate (k / 2) x ++ List.replicate (k - k / 2) x := by
        rw [← List.replicate_add]
        congr 1
        omega
      refine List.Perm.trans ?_ hparts
      rw [hhalves, List.append_assoc]
      refine List.Perm.append_left _ (List.perm_middle.symm.trans ?_)
      exact List.Perm.append_left _ (List.perm_cons_erase hmem).symm
    refine ⟨r', hperm, fun front back hothers z n hz hrun => ?_⟩
    have hcount := htotal r' front back hperm hothers
    by_cases hzx : z = x
    · have hfront : front.count x = 0 := List.count_eq_zero.mpr fun h =>
        hothers x (List.mem_append_left _ h) hx
      have hback : back.count x = 0 := List.count_eq_zero.mpr fun h =>
        hothers x (List.mem_append_right _ h) hx
      have herase : (others.erase y).count x = 0 := List.count_eq_zero.mpr fun h =>
        hnone (List.mem_of_mem_erase h)
      have hsplit : front ++ r' ++ back = (front ++ List.replicate (k / 2) x) ++ y ::
          (List.replicate (k - k / 2) x ++ others.erase y ++ back) := by
        simp [r']
      rw [hsplit, hzx] at hrun
      have hcut := equalRuns_cut hrun (Ne.symm hyx)
      simp only [List.count_append, hfront, hback, herase, List.count_replicate_self] at hcut
      omega
    · have hle := (count_of_equalRuns hrun).2.2
      rw [hcount z hz] at hle
      have hrest : r.count z ≤ others.length := by
        rw [← hparts.count_eq z, List.count_append, List.count_replicate,
          if_neg (by simpa using fun h : x = z => hzx h.symm), Nat.zero_add]
        exact List.count_le_length
      omega
  · push Not at hmany
    refine ⟨r, List.Perm.refl r, fun front back hothers x n hx hrun => ?_⟩
    have hle := (count_of_equalRuns hrun).2.2
    rw [htotal r front back (List.Perm.refl r) hothers x hx] at hle
    exact hle.trans (hmany x hx)

end EqualRuns

end Dittor.Lib

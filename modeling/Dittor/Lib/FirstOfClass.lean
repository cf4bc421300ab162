import Mathlib
import Dittor.Lib.Classes

/-!
# Which element of a class is taken

The most frequent element of a sorted list is found as the first one of a run, so of the elements
that are equated it is the one that the sort has put first (`smartlistGetMostFrequent_first`). A
sort that keeps equated elements in their order puts there the one that was first before, so the
first element of a list is taken if any of its class is (`smartlistGetMostFrequent_insertion`).
-/

namespace Dittor.Lib

variable {α : Type} {cmp : α → α → ℤ} {s : Set α} {l : List α} {a m : α} {n : ℕ}

/-- What is found is the first of its class. -/
theorem smartlistGetMostFrequent_first (h : Orders cmp s) (hl : ∀ x ∈ l, x ∈ s)
    (hs : l.Pairwise fun a b => cmp a b ≤ 0)
    (hm : smartlistGetMostFrequent cmp l = some (m, n)) :
    (l.filter fun x => cmp m x = 0).head? = some m := by
  obtain ⟨-, hwhole, -⟩ := runsBy_classes h hl hs
  have hin : (m, n) ∈ smartlistRuns (fun a b => decide (cmp a b = 0)) l := by
    have hfold : (smartlistRuns (fun a b => decide (cmp a b = 0)) l).foldl keepLonger none
        = some (m, n) := hm
    rcases foldl_keepLonger (smartlistRuns (fun a b => decide (cmp a b = 0)) l) with
      ⟨hnone, -⟩ | ⟨front, best, back, hbest, hruns, -, -⟩
    · rw [hnone] at hfold
      cases hfold
    · rw [hbest] at hfold
      rw [hruns, Option.some.inj hfold]
      simp
  rw [smartlistRuns_eq_map] at hin
  obtain ⟨run, hrun, heq⟩ := List.mem_map.mp hin
  obtain ⟨hfirst, -⟩ := Prod.mk.inj heq
  rw [← hfirst, ← hwhole run hrun]
  rfl

/-- Insertion puts an element in front of those that it is equated with. -/
theorem insertion_first (ha : cmp a a = 0) :
    ((Qsort.insertion.sort cmp (a :: l)).filter fun x => cmp a x = 0).head? = some a := by
  have hsort : Qsort.insertion.sort cmp (a :: l) = _ :=
    List.insertionSort_cons_eq_take_drop (fun a b => cmp a b ≤ 0) a l
  rw [hsort, List.filter_append]
  have hfront : ((List.insertionSort (fun a b => cmp a b ≤ 0) l).takeWhile
      fun b => ¬ cmp a b ≤ 0).filter (fun x => cmp a x = 0) = [] := by
    refine List.filter_eq_nil_iff.mpr fun x hx => ?_
    have hgt := List.mem_takeWhile_imp hx
    simp only [decide_eq_true_eq] at hgt ⊢
    omega
  rw [hfront, List.nil_append, List.filter_cons_of_pos (by simpa using ha)]
  rfl

/-- So the first element of a list is found if any of its class is. -/
theorem smartlistGetMostFrequent_insertion (h : Orders cmp s) (hl : ∀ x ∈ a :: l, x ∈ s)
    (hm : smartlistGetMostFrequent cmp (Qsort.insertion.sort cmp (a :: l)) = some (m, n))
    (ham : cmp a m = 0) : m = a := by
  have ha := hl a List.mem_cons_self
  have hin : ∀ x ∈ Qsort.insertion.sort cmp (a :: l), x ∈ s := fun x hx =>
    hl x ((Qsort.insertion.mem_sort).mp hx)
  have hsorted := Qsort.insertion.sorted (h.consistentOn hl)
  have hfirst := smartlistGetMostFrequent_first h hin hsorted hm
  have hms : m ∈ s := hin m ((smartlistGetMostFrequent_spec h hin hsorted).2 m n hm).mem
  have hclass : (Qsort.insertion.sort cmp (a :: l)).filter (fun x => cmp m x = 0)
      = (Qsort.insertion.sort cmp (a :: l)).filter fun x => cmp a x = 0 :=
    List.filter_congr fun x hx => by
      simpa using h.congr_left hms ha (hin x hx) ((h.symm ha hms).mp ham)
  rw [hclass, insertion_first (h.self ha)] at hfirst
  exact (Option.some.inj hfirst).symm

end Dittor.Lib

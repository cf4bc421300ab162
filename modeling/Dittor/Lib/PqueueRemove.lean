import Mathlib
import Dittor.Lib.Compare
import Dittor.Lib.Pqueue

/-!
# Removing from a priority queue

Removing the item at a position puts the last item there, and that only goes down. What is left is a
heap exactly if the last item is not below the parent of the position (`isHeap_removeAt_iff`).

A comparison function has keys: among finitely many items, the number of those that come before
(`rankIn`).
-/

namespace Dittor.Lib

variable {α : Type}

/-! ## Keys of a comparison function -/

/-- The number of items that come before. -/
def rankIn (cmp : α → α → ℤ) (l : List α) (x : α) : ℕ := l.countP fun y => cmp y x < 0

/-- **The rank is a key.** -/
theorem rankIn_lt_iff {cmp : α → α → ℤ} (h : Orders cmp Set.univ) {l : List α} {x y : α}
    (hx : x ∈ l) : rankIn cmp l x < rankIn cmp l y ↔ cmp x y < 0 := by
  unfold rankIn
  constructor
  · intro hlt
    by_contra hge
    have hyx : cmp y x ≤ 0 := (h.swap y trivial x trivial).mpr (by omega)
    refine absurd hlt (Nat.not_lt.mpr (List.countP_mono_left fun z _ hz => ?_))
    rw [decide_eq_true_eq] at hz ⊢
    exact h.lt_of_lt_of_le trivial trivial trivial hz hyx
  · intro hlt
    have hxx := h.self (Set.mem_univ x)
    obtain ⟨s, t, rfl⟩ := List.append_of_mem hx
    have hmono : ∀ u : List α, u.countP (fun z => cmp z x < 0) ≤ u.countP fun z => cmp z y < 0 := by
      refine fun u => List.countP_mono_left fun z _ hz => ?_
      rw [decide_eq_true_eq] at hz ⊢
      exact h.lt_of_lt_of_le trivial trivial trivial hz hlt.le
    have hs := hmono s
    have ht := hmono t
    simp only [List.countP_append, List.countP_cons, decide_eq_true_eq, hxx, hlt, if_true,
      lt_irrefl, if_false]
    omega

/-! ## Removal -/

/-- The last item in the place of another one, from where it goes down. -/
def pqueueRemoveAt (key : α → ℕ) (a : Array α) (idx : ℕ) (h : idx < a.size) : Array α :=
  if idx = a.size - 1 then a.pop
  else heapify key (a.swap idx (a.size - 1) h (by omega)).pop idx

section Remove

variable {key : α → ℕ} {a : Array α} {idx : ℕ}

theorem pqueueRemoveAt_perm (key : α → ℕ) (h : idx < a.size) :
    (a[idx] :: (pqueueRemoveAt key a idx h).toList).Perm a.toList := by
  have hlast : a.size - 1 < a.size := by omega
  unfold pqueueRemoveAt
  split
  · next heq =>
    have hswap := swap_pop_perm h hlast
    have hself : a.swap idx (a.size - 1) h hlast = a := by
      refine Array.ext (Array.size_swap ..) fun i _ _ => ?_
      rw [Array.getElem_swap]
      split_ifs with hi hi
      · simp only [hi, heq]
      · simp only [hi, heq]
      · rfl
    rwa [hself] at hswap
  · exact ((heapify_perm key _ idx).cons _).trans (swap_pop_perm h hlast)

/-- An item below all its children stays where it is. -/
theorem heapify_eq_self
    (hlt : ∀ i, 0 < i → i < a.size → (i - 1) / 2 = idx → keyAt key a idx < keyAt key a i) :
    heapify key a idx = a := by
  rw [heapify]
  split
  · next hleft =>
    have hbest : bestIdx key a idx = idx := by
      have hleft' := hlt (2 * idx + 1) (by omega) hleft (by omega)
      have hof : bestOfLeft key a idx = idx := if_pos hleft'
      unfold bestIdx
      rw [hof, if_neg]
      intro hright
      have := hlt (2 * idx + 2) (by omega) hright.1 (by omega)
      omega
    rw [dif_pos hbest]
  · rfl

/-- **When a heap is left.** -/
theorem isHeap_removeAt_iff (hheap : IsHeap key a) (h : idx < a.size) :
    IsHeap key (pqueueRemoveAt key a idx h) ↔
      idx = 0 ∨ idx = a.size - 1 ∨ keyAt key a ((idx - 1) / 2) ≤ keyAt key a (a.size - 1) := by
  have hlast : a.size - 1 < a.size := by omega
  unfold pqueueRemoveAt
  split
  · next heq =>
    refine iff_of_true (fun i hpos hi => ?_) (.inr (.inl heq))
    rw [Array.size_pop] at hi
    have hkeys : ∀ k < a.size - 1, keyAt key a.pop k = keyAt key a k := by
      intro k hk
      rw [keyAt, keyAt, Array.getElem?_pop, if_pos hk]
    rw [hkeys i hi, hkeys _ (by omega)]
    exact hheap i hpos (by omega)
  · next hne =>
    have hsize : (a.swap idx (a.size - 1) h hlast).pop.size = a.size - 1 := by simp
    have hkeys : ∀ k < a.size - 1, keyAt key (a.swap idx (a.size - 1) h hlast).pop k
        = if k = idx then keyAt key a (a.size - 1) else keyAt key a k :=
      fun k hk => keyAt_swap_pop key h hlast hk
    constructor
    · intro hleft
      by_contra hbad
      push Not at hbad
      obtain ⟨hzero, -, hparent⟩ := hbad
      -- below the parent of the position, so below everything there: it does not move
      have hstay : heapify key (a.swap idx (a.size - 1) h hlast).pop idx
          = (a.swap idx (a.size - 1) h hlast).pop := by
        refine heapify_eq_self fun i hpos hi hchild => ?_
        rw [hsize] at hi
        rw [hkeys i hi, hkeys idx (by omega), if_pos rfl, if_neg (by omega)]
        have hown := hheap i hpos (by omega)
        have hup := hheap idx (by omega) (by omega)
        rw [hchild] at hown
        omega
      rw [hstay] at hleft
      have hedge := hleft idx (by omega) (by omega)
      rw [hkeys idx (by omega), hkeys _ (by omega), if_pos rfl, if_neg (by omega)] at hedge
      omega
    · intro hcases
      refine heapify_isHeap key _ idx ⟨fun i hpos hi hparent => ?_, fun hzero i hpos hi hchild => ?_⟩
      · rw [hsize] at hi
        rw [hkeys i hi, hkeys _ (by omega), if_neg hparent]
        split
        · next heq =>
          subst heq
          rcases hcases with hcase | hcase | hcase
          · omega
          · omega
          · exact hcase
        · exact hheap i hpos (by omega)
      · rw [hsize] at hi
        rw [hkeys i hi, hkeys _ (by omega), if_neg (by omega), if_neg (by omega)]
        have hown := hheap i hpos (by omega)
        have hup := hheap idx hzero (by omega)
        rw [hchild] at hown
        omega

end Remove

end Dittor.Lib

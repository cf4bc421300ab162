import Mathlib

/-!
# A priority queue in an array (`smartlist_pqueue_add`, `smartlist_pqueue_pop`)

The binary heap of `smartlist.c`: the children of the item at `i` are at `2 * i + 1` and
`2 * i + 2`, and no item is below its parent. The order is that of a number each item has.

Both loops move one item that is out of place (`UpTo`, `DownFrom`), by exchanging it with its
parent or with a child. What that does is arithmetic on the keys by position (`keyAt`): no proof
about the order looks at the array.
-/

namespace Dittor.Lib

variable {α : Type}

/-- The key of the item at a position, 0 where there is none. -/
def keyAt (key : α → ℕ) (a : Array α) (i : ℕ) : ℕ := (a[i]?.map key).getD 0

/-- No item is below its parent. -/
def IsHeap (key : α → ℕ) (a : Array α) : Prop :=
  ∀ i, 0 < i → i < a.size → keyAt key a ((i - 1) / 2) ≤ keyAt key a i

/-- The loop of `smartlist_pqueue_add`. -/
def siftUp (key : α → ℕ) (a : Array α) (idx : ℕ) (h : idx < a.size) : Array α :=
  if hidx : idx = 0 then a
  else
    have hparent : (idx - 1) / 2 < a.size := by omega
    if key a[idx] < key a[(idx - 1) / 2] then
      siftUp key (a.swap ((idx - 1) / 2) idx) ((idx - 1) / 2) (by simpa using hparent)
    else a
termination_by idx
decreasing_by omega

/-- The item itself or its left child, whichever comes first. -/
def bestOfLeft (key : α → ℕ) (a : Array α) (idx : ℕ) : ℕ :=
  if keyAt key a idx < keyAt key a (2 * idx + 1) then idx else 2 * idx + 1

/-- `best_idx` in `smartlist_heapify`, for an item with a left child. -/
def bestIdx (key : α → ℕ) (a : Array α) (idx : ℕ) : ℕ :=
  if 2 * idx + 2 < a.size ∧ keyAt key a (2 * idx + 2) < keyAt key a (bestOfLeft key a idx) then
    2 * idx + 2
  else bestOfLeft key a idx

theorem bestIdx_cases (key : α → ℕ) (a : Array α) (idx : ℕ) :
    bestIdx key a idx = idx ∨ bestIdx key a idx = 2 * idx + 1 ∨
      bestIdx key a idx = 2 * idx + 2 ∧ 2 * idx + 2 < a.size := by
  unfold bestIdx
  split
  · next h => exact .inr (.inr ⟨rfl, h.1⟩)
  · unfold bestOfLeft
    split
    · exact .inl rfl
    · exact .inr (.inl rfl)

/-- `smartlist_heapify` -/
def heapify (key : α → ℕ) (a : Array α) (idx : ℕ) : Array α :=
  if hleft : 2 * idx + 1 < a.size then
    if hbest : bestIdx key a idx = idx then a
    else
      have hcases := bestIdx_cases key a idx
      heapify key (a.swap idx (bestIdx key a idx) (by omega) (by omega)) (bestIdx key a idx)
  else a
termination_by a.size - idx
decreasing_by
  have hcases := bestIdx_cases key a idx
  rw [Array.size_swap]
  omega

/-- `smartlist_pqueue_add` -/
def pqueueAdd (key : α → ℕ) (a : Array α) (item : α) : Array α :=
  siftUp key (a.push item) a.size (by simp)

/-- `smartlist_pqueue_pop`: the top, and the queue that is left. -/
def pqueuePop (key : α → ℕ) (a : Array α) : Option (α × Array α) :=
  if h : 0 < a.size then
    some (a[0], heapify key (a.swap 0 (a.size - 1) h (by omega)).pop 0)
  else none

/-! ## The items -/

theorem siftUp_perm (key : α → ℕ) (a : Array α) (idx : ℕ) (h : idx < a.size) :
    (siftUp key a idx h).toList.Perm a.toList := by
  induction a, idx, h using siftUp.induct key with
  | case1 a h => rw [siftUp, dif_pos rfl]
  | case2 a idx h hidx hparent hlt ih =>
    rw [siftUp, dif_neg hidx]
    simp only [if_pos hlt]
    exact ih.trans (Array.swap_perm hparent h).toList
  | case3 a idx h hidx hparent hlt =>
    rw [siftUp, dif_neg hidx]
    simp only [if_neg hlt]
    exact .refl _

theorem heapify_perm (key : α → ℕ) (a : Array α) (idx : ℕ) :
    (heapify key a idx).toList.Perm a.toList := by
  induction a, idx using heapify.induct key with
  | case1 a idx hleft hbest => rw [heapify, dif_pos hleft, dif_pos hbest]
  | case2 a idx hleft hbest hcases ih =>
    rw [heapify, dif_pos hleft, dif_neg hbest]
    exact ih.trans (Array.swap_perm _ _).toList
  | case3 a idx hleft => rw [heapify, dif_neg hleft]

theorem pqueueAdd_perm (key : α → ℕ) (a : Array α) (item : α) :
    (pqueueAdd key a item).toList.Perm (item :: a.toList) := by
  refine (siftUp_perm key _ _ _).trans ?_
  rw [Array.toList_push]
  exact List.perm_append_singleton item a.toList

/-- The items without the last one, which is now in another place. -/
theorem swap_pop_perm {a : Array α} {idx : ℕ} (h : idx < a.size) (hlast : a.size - 1 < a.size) :
    (a[idx] :: (a.swap idx (a.size - 1) h hlast).pop.toList).Perm a.toList := by
  refine List.Perm.trans ?_ (Array.swap_perm h hlast).toList
  rw [Array.toList_pop]
  have hne : (a.swap idx (a.size - 1) h hlast).toList ≠ [] := by
    intro hnil
    have := congrArg List.length hnil
    rw [Array.length_toList, Array.size_swap] at this
    exact absurd this (Nat.ne_of_gt (Nat.zero_lt_of_lt h))
  have hgetLast : (a.swap idx (a.size - 1) h hlast).toList.getLast hne = a[idx] := by
    rw [List.getLast_eq_getElem]
    simp
  conv_rhs => rw [← List.dropLast_append_getLast hne, hgetLast]
  exact (List.perm_append_singleton _ _).symm

theorem pqueuePop_perm {key : α → ℕ} {a rest : Array α} {top : α}
    (h : pqueuePop key a = some (top, rest)) : (top :: rest.toList).Perm a.toList := by
  unfold pqueuePop at h
  split at h
  · next hsize =>
    rw [Option.some_inj, Prod.mk.injEq] at h
    obtain ⟨rfl, rfl⟩ := h
    exact ((heapify_perm key _ 0).cons _).trans
      (swap_pop_perm hsize (Nat.sub_lt hsize one_pos))
  · cases h

/-! ## The order -/

theorem keyAt_swap (key : α → ℕ) (a : Array α) {i j : ℕ} (hi : i < a.size) (hj : j < a.size)
    (k : ℕ) : keyAt key (a.swap i j) k =
      if k = i then keyAt key a j else if k = j then keyAt key a i else keyAt key a k := by
  unfold keyAt
  rw [Array.getElem?_swap]
  by_cases hkj : k = j
  · subst hkj
    rw [if_pos rfl, if_pos rfl]
    split
    · next hki =>
      subst hki
      simp [hj]
    · simp [hi]
  · rw [if_neg (Ne.symm hkj), if_neg hkj]
    by_cases hki : k = i
    · rw [if_pos hki.symm, if_pos hki]
      simp [hj]
    · rw [if_neg (Ne.symm hki), if_neg hki]

theorem keyAt_swap_pop (key : α → ℕ) {a : Array α} {idx : ℕ} (h : idx < a.size) (hlast : a.size - 1 < a.size) {k : ℕ}
    (hk : k < a.size - 1) : keyAt key (a.swap idx (a.size - 1) h hlast).pop k
      = if k = idx then keyAt key a (a.size - 1) else keyAt key a k := by
  have hpop : keyAt key (a.swap idx (a.size - 1) h hlast).pop k
      = keyAt key (a.swap idx (a.size - 1) h hlast) k := by
    rw [keyAt, keyAt, Array.getElem?_pop, if_pos (by rw [Array.size_swap]; exact hk)]
  rw [hpop, keyAt_swap]
  split_ifs with hidx hlt
  · rfl
  · omega
  · rfl

/-- Every item but the one at `idx` is in order with its parent, and the children of that one are in
order with its parent. -/
structure UpTo (f : ℕ → ℕ) (size idx : ℕ) : Prop where
  others : ∀ i, 0 < i → i < size → i ≠ idx → f ((i - 1) / 2) ≤ f i
  children : 0 < idx → ∀ i, 0 < i → i < size → (i - 1) / 2 = idx → f ((idx - 1) / 2) ≤ f i

/-- The item goes up. -/
theorem UpTo.swap {f g : ℕ → ℕ} {size idx : ℕ} (h : UpTo f size idx) (hidx : 0 < idx)
    (hsize : idx < size) (hlt : f idx < f ((idx - 1) / 2))
    (hg : ∀ k, g k = if k = (idx - 1) / 2 then f idx else if k = idx then f ((idx - 1) / 2)
      else f k) :
    UpTo g size ((idx - 1) / 2) where
  others i hpos hi hne := by
    by_cases hiidx : i = idx
    · subst hiidx
      rw [hg, hg, if_pos rfl, if_neg (by omega), if_pos rfl]
      exact hlt.le
    · have hown := h.others i hpos hi hiidx
      rw [hg i, if_neg hne, if_neg hiidx, hg]
      split_ifs with hparent hchild
      · rw [hparent] at hown
        omega
      · exact h.children hidx i hpos hi hchild
      · exact hown
  children hpos i hipos hi hchild := by
    have hparent := h.others ((idx - 1) / 2) hpos (by omega) (by omega)
    rw [hg, if_neg (by omega), if_neg (by omega), hg i, if_neg (by omega)]
    split_ifs with hiidx
    · exact hparent
    · have hown := h.others i hipos hi hiidx
      rw [hchild] at hown
      omega

theorem UpTo.done {f : ℕ → ℕ} {size idx : ℕ} (h : UpTo f size idx)
    (hstop : 0 < idx → f ((idx - 1) / 2) ≤ f idx) :
    ∀ i, 0 < i → i < size → f ((i - 1) / 2) ≤ f i := by
  intro i hpos hi
  by_cases hiidx : i = idx
  · rw [hiidx]
    exact hstop (hiidx ▸ hpos)
  · exact h.others i hpos hi hiidx

theorem keyAt_of_lt (key : α → ℕ) (a : Array α) {i : ℕ} (hi : i < a.size) :
    keyAt key a i = key a[i] := by
  simp [keyAt, hi]

theorem siftUp_isHeap (key : α → ℕ) (a : Array α) (idx : ℕ) (h : idx < a.size)
    (hup : UpTo (keyAt key a) a.size idx) : IsHeap key (siftUp key a idx h) := by
  induction a, idx, h using siftUp.induct key with
  | case1 a h =>
    rw [siftUp, dif_pos rfl]
    exact hup.done fun hpos => absurd hpos (by omega)
  | case2 a idx h hidx hparent hlt ih =>
    rw [siftUp, dif_neg hidx]
    simp only [if_pos hlt]
    refine ih ?_
    rw [← keyAt_of_lt key a h, ← keyAt_of_lt key a hparent] at hlt
    rw [Array.size_swap]
    exact hup.swap (by omega) h hlt (keyAt_swap key a hparent h)
  | case3 a idx h hidx hparent hlt =>
    rw [siftUp, dif_neg hidx]
    simp only [if_neg hlt]
    rw [← keyAt_of_lt key a h, ← keyAt_of_lt key a hparent] at hlt
    exact hup.done fun _ => by omega

/-- Every item is in order with its parent unless that is at `idx`, and the children of the one at
`idx` are in order with its parent. -/
structure DownFrom (f : ℕ → ℕ) (size idx : ℕ) : Prop where
  others : ∀ i, 0 < i → i < size → (i - 1) / 2 ≠ idx → f ((i - 1) / 2) ≤ f i
  children : 0 < idx → ∀ i, 0 < i → i < size → (i - 1) / 2 = idx → f ((idx - 1) / 2) ≤ f i

/-- The item goes down, and its least child up. -/
theorem DownFrom.swap {f g : ℕ → ℕ} {size idx best : ℕ} (h : DownFrom f size idx)
    (hchild : (best - 1) / 2 = idx) (hpos : 0 < best) (hsize : best < size)
    (hle : f best ≤ f idx) (hleast : ∀ i, 0 < i → i < size → (i - 1) / 2 = idx → f best ≤ f i)
    (hg : ∀ k, g k = if k = idx then f best else if k = best then f idx else f k) :
    DownFrom g size best where
  others i hipos hi hne := by
    by_cases hibest : i = best
    · rw [hibest, hchild, hg, hg, if_pos rfl, if_neg (by omega), if_pos rfl]
      exact hle
    · rw [hg ((i - 1) / 2), hg i, if_neg hibest]
      split_ifs with hparent hiidx hiidx
      · omega
      · exact hleast i hipos hi hparent
      · rw [hiidx]
        exact h.children (by omega) best hpos hsize hchild
      · exact h.others i hipos hi hparent
  children _ i hipos hi hparent := by
    have hown := h.others i hipos hi (by omega)
    rw [hparent] at hown
    rw [hchild, hg, hg i, if_pos rfl, if_neg (by omega), if_neg (by omega)]
    exact hown

theorem bestOfLeft_le (key : α → ℕ) (a : Array α) (idx : ℕ) :
    keyAt key a (bestOfLeft key a idx) ≤ keyAt key a idx ∧
      keyAt key a (bestOfLeft key a idx) ≤ keyAt key a (2 * idx + 1) := by
  unfold bestOfLeft
  split
  · next h => exact ⟨le_refl _, h.le⟩
  · next h => exact ⟨Nat.le_of_not_lt h, le_refl _⟩

/-- The best is none of the others' last. -/
theorem bestIdx_le (key : α → ℕ) (a : Array α) (idx : ℕ) :
    keyAt key a (bestIdx key a idx) ≤ keyAt key a idx ∧
      ∀ i, 0 < i → i < a.size → (i - 1) / 2 = idx →
        keyAt key a (bestIdx key a idx) ≤ keyAt key a i := by
  have hbest := bestOfLeft_le key a idx
  have hchildren : ∀ i, 0 < i → (i - 1) / 2 = idx → i = 2 * idx + 1 ∨ i = 2 * idx + 2 := by
    omega
  unfold bestIdx
  split
  · next hright =>
    refine ⟨by omega, fun i hpos hi hparent => ?_⟩
    rcases hchildren i hpos hparent with rfl | rfl <;> omega
  · next hright =>
    refine ⟨hbest.1, fun i hpos hi hparent => ?_⟩
    rcases hchildren i hpos hparent with rfl | rfl
    · exact hbest.2
    · exact Nat.le_of_not_lt fun hlt => hright ⟨hi, hlt⟩

theorem heapify_isHeap (key : α → ℕ) (a : Array α) (idx : ℕ)
    (hdown : DownFrom (keyAt key a) a.size idx) : IsHeap key (heapify key a idx) := by
  induction a, idx using heapify.induct key with
  | case1 a idx hleft hbest =>
    rw [heapify, dif_pos hleft, dif_pos hbest]
    intro i hpos hi
    by_cases hparent : (i - 1) / 2 = idx
    · have := (bestIdx_le key a idx).2 i hpos hi hparent
      rwa [hbest, ← hparent] at this
    · exact hdown.others i hpos hi hparent
  | case2 a idx hleft hbest hcases ih =>
    rw [heapify, dif_pos hleft, dif_neg hbest]
    have hle := bestIdx_le key a idx
    have hlt : bestIdx key a idx < a.size := by omega
    refine ih ?_
    rw [Array.size_swap]
    exact hdown.swap (by omega) (by omega) hlt hle.1 hle.2 (keyAt_swap key a (by omega) hlt)
  | case3 a idx hleft =>
    rw [heapify, dif_neg hleft]
    intro i hpos hi
    exact hdown.others i hpos hi (by omega)

/-! ## The queue -/

theorem keyAt_push (key : α → ℕ) (a : Array α) (item : α) {i : ℕ} (hi : i < a.size) :
    keyAt key (a.push item) i = keyAt key a i := by
  simp [keyAt, Array.getElem?_push, Nat.ne_of_lt hi]

theorem IsHeap.pqueueAdd {key : α → ℕ} {a : Array α} (h : IsHeap key a) (item : α) :
    IsHeap key (pqueueAdd key a item) := by
  refine siftUp_isHeap key _ _ _ ⟨fun i hpos hi hne => ?_, fun hpos i hipos hi hparent => ?_⟩
  · rw [Array.size_push] at hi
    rw [keyAt_push key a item (by omega), keyAt_push key a item (by omega)]
    exact h i hpos (by omega)
  · rw [Array.size_push] at hi
    omega

theorem IsHeap.root_le {key : α → ℕ} {a : Array α} (h : IsHeap key a) (i : ℕ) (hi : i < a.size) :
    keyAt key a 0 ≤ keyAt key a i := by
  induction i using Nat.strong_induction_on with
  | h i ih =>
    by_cases hpos : 0 < i
    · exact (ih ((i - 1) / 2) (by omega) (by omega)).trans (h i hpos hi)
    · rw [Nat.eq_zero_of_not_pos hpos]

/-- What is popped is the least, and a heap is left. -/
theorem IsHeap.pqueuePop {key : α → ℕ} {a rest : Array α} {top : α} (h : IsHeap key a)
    (hpop : pqueuePop key a = some (top, rest)) :
    IsHeap key rest ∧ ∀ x ∈ a.toList, key top ≤ key x := by
  unfold Lib.pqueuePop at hpop
  split at hpop
  · next hsize =>
    rw [Option.some_inj, Prod.mk.injEq] at hpop
    obtain ⟨rfl, rfl⟩ := hpop
    have hlast : a.size - 1 < a.size := Nat.sub_lt hsize one_pos
    constructor
    · refine heapify_isHeap key _ 0 ⟨fun i hpos hi hparent => ?_, fun hpos => absurd hpos (by omega)⟩
      have hsizes : (a.swap 0 (a.size - 1) hsize hlast).pop.size = a.size - 1 := by simp
      have hkeys : ∀ k, 0 < k → k < a.size - 1 →
          keyAt key (a.swap 0 (a.size - 1) hsize hlast).pop k = keyAt key a k := by
        intro k hkpos hk
        rw [keyAt_swap_pop key hsize hlast hk, if_neg (by omega)]
      rw [hsizes] at hi
      rw [hkeys i hpos hi, hkeys _ (by omega) (by omega)]
      exact h i hpos (by omega)
    · intro x hx
      obtain ⟨i, hi, rfl⟩ := List.getElem_of_mem hx
      have := h.root_le i (by simpa using hi)
      rw [keyAt_of_lt key a hsize, keyAt_of_lt key a (by simpa using hi)] at this
      simpa using this
  · cases hpop

end Dittor.Lib

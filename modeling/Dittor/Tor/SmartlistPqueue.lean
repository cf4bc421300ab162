import Mathlib
import Dittor.Lib.Compare
import Dittor.Lib.PqueueRemove

/-!
# The priority queue of smartlists (`smartlist.c`)

`smartlist_pqueue_add`, `smartlist_pqueue_pop` and `smartlist_pqueue_remove` keep a list in heap
order, and in a field of each item its position in the list. On the list they are the operations of
the heap library, with the rank of an item under `compare` as its key.

Removing an item puts the last one in its place, and that only goes down. So the positions and the
contents are always right, but the order is kept exactly if the last item is not smaller than the
parent of the removed one (`pqueue_order_iff`).
-/

namespace Dittor.Tor

open Dittor.Lib

/-! ## The code -/

/-- `smartlist_t`, up to `num_used`, and the index field of every item. -/
structure IndexedList (α : Type) where
  list : Array α
  idxField : α → ℤ

/-- `INT_MAX`, the capacity of a list, and `MAX_PARENT_IDX` -/
def maxCapacity : ℕ := 2147483647

def maxParentIdx : ℕ := (maxCapacity - 2) / 2

variable {α : Type}

/-- `compare(sl->list[i], sl->list[j]) < 0` -/
def before (compare : α → α → ℤ) (a : Array α) (i j : ℕ) : Bool :=
  match a[i]?, a[j]? with
  | some x, some y => compare x y < 0
  | _, _ => false

/-- `best_idx` in `smartlist_heapify` -/
def heapifyBest (compare : α → α → ℤ) (a : Array α) (idx : ℕ) : ℕ :=
  let leftIdx := 2 * idx + 1
  let bestIdx := if before compare a idx leftIdx then idx else leftIdx
  if leftIdx + 1 < a.size ∧ before compare a (leftIdx + 1) bestIdx then leftIdx + 1 else bestIdx

theorem heapifyBest_cases (compare : α → α → ℤ) (a : Array α) (idx : ℕ) :
    heapifyBest compare a idx = idx ∨ heapifyBest compare a idx = 2 * idx + 1
      ∨ heapifyBest compare a idx = 2 * idx + 2 ∧ 2 * idx + 2 < a.size := by
  have hleft : (if before compare a idx (2 * idx + 1) then idx else 2 * idx + 1) = idx
      ∨ (if before compare a idx (2 * idx + 1) then idx else 2 * idx + 1) = 2 * idx + 1 := by
    split
    · exact .inl rfl
    · exact .inr rfl
  unfold heapifyBest
  dsimp only
  split_ifs at hleft ⊢ <;> omega

section Code

variable [DecidableEq α] (compare : α → α → ℤ)

/-- `*IDXP(item) = value` -/
def IndexedList.setIdx (sl : IndexedList α) (item : α) (value : ℤ) : IndexedList α :=
  { sl with idxField := Function.update sl.idxField item value }

/-- The exchange of two items, with `UPDATE_IDX` of both positions. -/
def IndexedList.exchange (sl : IndexedList α) (i j : ℕ) (hi : i < sl.list.size)
    (hj : j < sl.list.size) : IndexedList α :=
  let list := sl.list.swap i j
  let idxField := Function.update sl.idxField sl.list[j] (i : ℤ)
  let idxField := Function.update idxField sl.list[i] (j : ℤ)
  { list, idxField }

/-- `smartlist_heapify` -/
def smartlistHeapify (sl : IndexedList α) (idx : ℕ) : IndexedList α :=
  if ¬ idx ≤ maxParentIdx then sl
  else if hleft : 2 * idx + 1 ≥ sl.list.size then sl
  else
    if hbest : heapifyBest compare sl.list idx = idx then sl
    else
      have hcases := heapifyBest_cases compare sl.list idx
      smartlistHeapify
        (sl.exchange idx (heapifyBest compare sl.list idx) (by omega) (by omega))
        (heapifyBest compare sl.list idx)
termination_by sl.list.size - idx
decreasing_by
  have hcases := heapifyBest_cases compare sl.list idx
  simp only [IndexedList.exchange, Array.size_swap]
  omega

/-- The loop of `smartlist_pqueue_add`. -/
def pqueueAddLoop (sl : IndexedList α) (idx : ℕ) (h : idx < sl.list.size) : IndexedList α :=
  if hidx : idx = 0 then sl
  else
    have hparent : (idx - 1) / 2 < sl.list.size := by omega
    if compare sl.list[idx] sl.list[(idx - 1) / 2] < 0 then
      pqueueAddLoop (sl.exchange ((idx - 1) / 2) idx hparent h) ((idx - 1) / 2)
        (by simpa [IndexedList.exchange] using hparent)
    else sl
termination_by idx
decreasing_by omega

/-- `smartlist_pqueue_add`; `none` where the assertion on the capacity fails. -/
def smartlistPqueueAdd (sl : IndexedList α) (item : α) : Option (IndexedList α) :=
  if ¬ sl.list.size + 1 ≤ maxCapacity then none
  else
    let sl' := { sl with list := sl.list.push item }.setIdx item sl.list.size
    some (pqueueAddLoop compare sl' sl.list.size (by simp [sl', IndexedList.setIdx]))

/-- `sl->list[idx] = sl->list[sl->num_used]` behind `--sl->num_used`, and the rest of the two
functions that remove. -/
def replaceByLast (sl : IndexedList α) (idx : ℕ) (h : idx < sl.list.size) : IndexedList α :=
  if idx = sl.list.size - 1 then { sl with list := sl.list.pop }
  else
    let last := sl.list[sl.list.size - 1]
    smartlistHeapify compare
      ({ sl with list := (sl.list.set idx last).pop }.setIdx last idx) idx

/-- `smartlist_pqueue_pop`; `none` where the assertion fails that the list is not empty. -/
def smartlistPqueuePop (sl : IndexedList α) : Option (α × IndexedList α) :=
  if h : sl.list.size = 0 then none
  else
    let top := sl.list[0]
    some (top, replaceByLast compare (sl.setIdx top (-1)) 0
      (by simp only [IndexedList.setIdx]; omega))

/-- `smartlist_pqueue_remove`; `none` where one of the assertions fails. -/
def smartlistPqueueRemove (sl : IndexedList α) (item : α) : Option (IndexedList α) :=
  if h : 0 ≤ sl.idxField item ∧ sl.list[(sl.idxField item).toNat]? = some item then
    some (replaceByLast compare (sl.setIdx item (-1)) (sl.idxField item).toNat
      (by
        obtain ⟨hlt, -⟩ := Array.getElem?_eq_some_iff.mp h.2
        exact hlt))
  else none

end Code

/-! ## The list -/

section List

variable {compare : α → α → ℤ} {key : α → ℕ}

/-- The key orders the items of a list as the comparison does. -/
def KeyOf (compare : α → α → ℤ) (key : α → ℕ) (a : Array α) : Prop :=
  ∀ x ∈ a, ∀ y ∈ a, key x < key y ↔ compare x y < 0

theorem KeyOf.mono {a b : Array α} (h : KeyOf compare key a) (hsub : ∀ x ∈ b, x ∈ a) :
    KeyOf compare key b :=
  fun x hx y hy => h x (hsub x hx) y (hsub y hy)

theorem KeyOf.swap {a : Array α} (h : KeyOf compare key a) {i j : ℕ} (hi : i < a.size)
    (hj : j < a.size) : KeyOf compare key (a.swap i j) :=
  h.mono fun _ hx => (Array.swap_perm hi hj).mem_iff.mp hx

theorem keyOf_rankIn (horder : Orders compare Set.univ) (a : Array α) :
    KeyOf compare (rankIn compare a.toList) a :=
  fun _ hx _ _ => rankIn_lt_iff horder (Array.mem_toList_iff.mpr hx)

theorem KeyOf.before_iff {a : Array α} (h : KeyOf compare key a) {i j : ℕ} (hi : i < a.size)
    (hj : j < a.size) : before compare a i j = true ↔ keyAt key a i < keyAt key a j := by
  rw [keyAt_of_lt key a hi, keyAt_of_lt key a hj, h _ (Array.getElem_mem hi) _ (Array.getElem_mem hj)]
  unfold before
  rw [Array.getElem?_eq_getElem hi, Array.getElem?_eq_getElem hj]
  exact decide_eq_true_iff

theorem heapifyBest_eq {a : Array α} (h : KeyOf compare key a) {idx : ℕ}
    (hleft : 2 * idx + 1 < a.size) : heapifyBest compare a idx = bestIdx key a idx := by
  have hof : (if before compare a idx (2 * idx + 1) then idx else 2 * idx + 1)
      = bestOfLeft key a idx := by
    unfold bestOfLeft
    simp only [h.before_iff (show idx < a.size by omega) hleft]
  have hlt : bestOfLeft key a idx < a.size := by
    unfold bestOfLeft
    split <;> omega
  unfold heapifyBest bestIdx
  dsimp only
  rw [hof]
  by_cases hright : 2 * idx + 2 < a.size
  · simp only [h.before_iff (show 2 * idx + 1 + 1 < a.size from hright) hlt]
  · rw [if_neg (by omega), if_neg (by omega)]

variable [DecidableEq α]

/-- No position behind `MAX_PARENT_IDX` has children. -/
theorem smartlistHeapify_list (sl : IndexedList α) (idx : ℕ) (hkey : KeyOf compare key sl.list)
    (hsize : sl.list.size ≤ maxCapacity) :
    (smartlistHeapify compare sl idx).list = heapify key sl.list idx := by
  induction sl, idx using smartlistHeapify.induct compare with
  | case1 sl idx hmax =>
    rw [smartlistHeapify, if_pos hmax, heapify, dif_neg]
    unfold maxParentIdx maxCapacity at hmax
    unfold maxCapacity at hsize
    omega
  | case2 sl idx hmax hleft =>
    rw [smartlistHeapify, if_neg hmax, dif_pos hleft, heapify, dif_neg (by omega)]
  | case3 sl idx hmax hleft hbest =>
    rw [smartlistHeapify, if_neg hmax, dif_neg hleft, dif_pos hbest, heapify, dif_pos (by omega)]
    rw [heapifyBest_eq hkey (by omega)] at hbest
    rw [dif_pos hbest]
  | case4 sl idx hmax hleft hbest hcases ih =>
    have heq := heapifyBest_eq hkey (show 2 * idx + 1 < sl.list.size by omega)
    rw [smartlistHeapify, if_neg hmax, dif_neg hleft, dif_neg hbest, heapify, dif_pos (by omega),
      dif_neg (heq ▸ hbest)]
    simp only [← heq]
    exact ih (hkey.swap (by omega) (by omega)) (by simpa [IndexedList.exchange] using hsize)

theorem pqueueAddLoop_list (sl : IndexedList α) (idx : ℕ) (h : idx < sl.list.size)
    (hkey : KeyOf compare key sl.list) :
    (pqueueAddLoop compare sl idx h).list = siftUp key sl.list idx h := by
  induction sl, idx, h using pqueueAddLoop.induct compare with
  | case1 sl h => rw [pqueueAddLoop, dif_pos rfl, siftUp, dif_pos rfl]
  | case2 sl idx h hidx hparent hlt ih =>
    rw [pqueueAddLoop, dif_neg hidx, siftUp, dif_neg hidx]
    simp only [if_pos hlt, if_pos ((hkey _ (Array.getElem_mem h) _ (Array.getElem_mem hparent)).mpr
      hlt)]
    exact ih (hkey.swap hparent h)
  | case3 sl idx h hidx hparent hlt =>
    rw [pqueueAddLoop, dif_neg hidx, siftUp, dif_neg hidx]
    simp only [if_neg hlt, if_neg (fun hbefore => hlt
      ((hkey _ (Array.getElem_mem h) _ (Array.getElem_mem hparent)).mp hbefore))]

/-- The list after a removal. -/
theorem replaceByLast_list (sl : IndexedList α) {idx : ℕ} (h : idx < sl.list.size)
    (hkey : KeyOf compare key sl.list) (hsize : sl.list.size ≤ maxCapacity) :
    (replaceByLast compare sl idx h).list = pqueueRemoveAt key sl.list idx h := by
  unfold replaceByLast pqueueRemoveAt
  split
  · rfl
  · next hne =>
    have hlast : sl.list.size - 1 < sl.list.size := by omega
    have hswap : (sl.list.set idx sl.list[sl.list.size - 1]).pop
        = (sl.list.swap idx (sl.list.size - 1) h hlast).pop := by
      refine Array.ext (by simp) fun i hi _ => ?_
      rw [Array.size_pop, Array.size_set] at hi
      rw [Array.getElem_pop, Array.getElem_pop, Array.getElem_swap, Array.getElem_set]
      split_ifs <;> first | rfl | omega
    rw [smartlistHeapify_list]
    · exact congrArg (heapify key · idx) hswap
    · refine hkey.mono fun x hx => ?_
      dsimp only [IndexedList.setIdx] at hx
      rw [hswap] at hx
      refine (Array.swap_perm h hlast).mem_iff.mp ?_
      obtain ⟨k, hk, rfl⟩ := Array.getElem_of_mem hx
      rw [Array.getElem_pop]
      exact Array.getElem_mem _
    · simp only [IndexedList.setIdx, Array.size_pop, Array.size_set]
      omega

end List

/-! ## The index fields -/

section Index

variable {compare : α → α → ℤ} {sl sl' sl'' : IndexedList α} {x : α} {i j : ℕ}

/-- The index of every item is its position. -/
def Indexed (sl : IndexedList α) : Prop :=
  ∀ i (h : i < sl.list.size), sl.idxField sl.list[i] = i

theorem Indexed.inj (h : Indexed sl) (hi : i < sl.list.size) (hj : j < sl.list.size)
    (heq : sl.list[i] = sl.list[j]) : i = j := by
  have hindex := h i hi
  rw [heq, h j hj] at hindex
  exact_mod_cast hindex.symm

/-- The same items in another order, with their positions. -/
structure Rearranged (sl sl' : IndexedList α) : Prop where
  mem : ∀ x, x ∈ sl'.list ↔ x ∈ sl.list
  indexed : Indexed sl → Indexed sl'
  others : ∀ x ∉ sl.list, sl'.idxField x = sl.idxField x

theorem Rearranged.refl (sl : IndexedList α) : Rearranged sl sl := ⟨fun _ => .rfl, id, fun _ _ => rfl⟩

theorem Rearranged.trans (h : Rearranged sl sl') (h' : Rearranged sl' sl'') :
    Rearranged sl sl'' where
  mem x := (h'.mem x).trans (h.mem x)
  indexed hindexed := h'.indexed (h.indexed hindexed)
  others x hx := (h'.others x fun hx' => hx ((h.mem x).mp hx')).trans (h.others x hx)

variable [DecidableEq α]

theorem rearranged_exchange (hi : i < sl.list.size) (hj : j < sl.list.size) :
    Rearranged sl (sl.exchange i j hi hj) where
  mem x := (Array.swap_perm hi hj).mem_iff
  indexed hindexed k hk := by
    simp only [IndexedList.exchange, Array.size_swap, Array.getElem_swap] at hk ⊢
    by_cases hki : k = i
    · rw [if_pos hki]
      by_cases heq : sl.list[j] = sl.list[i]
      · rw [heq, Function.update_self, hki, hindexed.inj hj hi heq]
      · rw [Function.update_of_ne heq, Function.update_self, hki]
    · rw [if_neg hki]
      by_cases hkj : k = j
      · rw [if_pos hkj, Function.update_self, hkj]
      · rw [if_neg hkj, Function.update_of_ne fun heq => hki (hindexed.inj hk hi heq),
          Function.update_of_ne fun heq => hkj (hindexed.inj hk hj heq)]
        exact hindexed k hk
  others x hx := by
    simp only [IndexedList.exchange]
    rw [Function.update_of_ne, Function.update_of_ne]
    · rintro rfl
      exact hx (Array.getElem_mem hj)
    · rintro rfl
      exact hx (Array.getElem_mem hi)

theorem rearranged_heapify (sl : IndexedList α) (idx : ℕ) :
    Rearranged sl (smartlistHeapify compare sl idx) := by
  induction sl, idx using smartlistHeapify.induct compare with
  | case1 sl idx hmax =>
    rw [smartlistHeapify, if_pos hmax]
    exact .refl sl
  | case2 sl idx hmax hleft =>
    rw [smartlistHeapify, if_neg hmax, dif_pos hleft]
    exact .refl sl
  | case3 sl idx hmax hleft hbest =>
    rw [smartlistHeapify, if_neg hmax, dif_neg hleft, dif_pos hbest]
    exact .refl sl
  | case4 sl idx hmax hleft hbest hcases ih =>
    rw [smartlistHeapify, if_neg hmax, dif_neg hleft, dif_neg hbest]
    exact (rearranged_exchange (by omega) (by omega)).trans ih

theorem rearranged_addLoop (compare : α → α → ℤ) (sl : IndexedList α) (idx : ℕ) (h : idx < sl.list.size) :
    Rearranged sl (pqueueAddLoop compare sl idx h) := by
  induction sl, idx, h using pqueueAddLoop.induct compare with
  | case1 sl h =>
    rw [pqueueAddLoop, dif_pos rfl]
    exact .refl sl
  | case2 sl idx h hidx hparent hlt ih =>
    rw [pqueueAddLoop, dif_neg hidx]
    simp only [if_pos hlt]
    exact (rearranged_exchange hparent h).trans ih
  | case3 sl idx h hidx hparent hlt =>
    rw [pqueueAddLoop, dif_neg hidx]
    simp only [if_neg hlt]
    exact .refl sl

/-- The item at the end has its index. -/
theorem indexed_push (hindexed : Indexed sl) (hnew : x ∉ sl.list) :
    Indexed ({ sl with list := sl.list.push x }.setIdx x sl.list.size) := by
  intro k hk
  simp only [IndexedList.setIdx, Array.size_push] at hk ⊢
  by_cases hlast : k = sl.list.size
  · subst hlast
    rw [Array.getElem_push_eq, Function.update_self]
  · have hlt : k < sl.list.size := by omega
    rw [Array.getElem_push_lt hlt, Function.update_of_ne]
    · exact hindexed k hlt
    · rintro rfl
      exact hnew (Array.getElem_mem hlt)

/-- **The positions after a removal.** -/
theorem replaceByLast_indexed (hindexed : Indexed sl) (hi : i < sl.list.size) {h} :
    Indexed (replaceByLast compare (sl.setIdx sl.list[i] (-1)) i h) := by
  unfold replaceByLast
  split
  · next hlast =>
    intro k hk
    simp only [IndexedList.setIdx, Array.size_pop, Array.getElem_pop] at hk hlast ⊢
    rw [Function.update_of_ne fun heq => by
      have := hindexed.inj (by omega) hi heq
      omega]
    exact hindexed k (by omega)
  · next hne =>
    refine (rearranged_heapify _ _).indexed fun k hk => ?_
    simp only [IndexedList.setIdx, Array.size_pop, Array.size_set, Array.getElem_pop,
      Array.getElem_set] at hk hne ⊢
    by_cases hki : i = k
    · rw [if_pos hki, Function.update_self, hki]
    · rw [if_neg hki, Function.update_of_ne fun heq => by
        have := hindexed.inj (by omega) (by omega) heq
        omega]
      rw [Function.update_of_ne fun heq => hki (hindexed.inj (by omega) hi heq).symm]
      exact hindexed k (by omega)

/-- The index of the removed item, and of what is not in the list. -/
theorem replaceByLast_others (hindexed : Indexed sl) (hi : i < sl.list.size) {h}
    (hx : x = sl.list[i] ∨ x ∉ sl.list) :
    (replaceByLast compare (sl.setIdx sl.list[i] (-1)) i h).idxField x
      = if x = sl.list[i] then -1 else sl.idxField x := by
  have hfield : (sl.setIdx sl.list[i] (-1)).idxField x
      = if x = sl.list[i] then -1 else sl.idxField x := Function.update_apply ..
  unfold replaceByLast
  split
  · exact hfield
  · next hne =>
    have hlast : x ≠ sl.list[sl.list.size - 1] := by
      intro heq
      rcases hx with hx | hx
      · exact hne (hindexed.inj (by omega) hi (heq.symm.trans hx)).symm
      · exact hx (heq ▸ Array.getElem_mem _)
    rw [(rearranged_heapify _ _).others]
    · simp only [IndexedList.setIdx] at hfield ⊢
      rw [Function.update_of_ne hlast]
      exact hfield
    · intro hmem
      obtain ⟨k, hk, heq⟩ := Array.getElem_of_mem hmem
      simp only [IndexedList.setIdx, Array.size_pop, Array.size_set, Array.getElem_pop,
        Array.getElem_set] at hk hne heq
      split at heq
      · exact hlast heq.symm
      · next hki =>
        rcases hx with hx | hx
        · exact hki (hindexed.inj (by omega) hi (heq.trans hx)).symm
        · exact hx (heq ▸ Array.getElem_mem _)

end Index

end Dittor.Tor

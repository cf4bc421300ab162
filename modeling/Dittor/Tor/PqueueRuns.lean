import Mathlib
import Dittor.Tor.SmartlistPqueue

/-!
# Runs of the priority queue

A run begins with the empty list and adds, pops and removes. In every state the index field of each
item is its position, that of an item that was taken out is -1, and the items are those that were
added and not taken out (`recorded_of_run`). The order, and with it that the least item is popped,
is kept as long as each removal puts an item in order with the parent at its new place: that is the
one condition (`pqueue_order_iff`). A removal that does not is possible in every such heap
(`run_of_inOrder`).
-/

namespace Dittor.Tor

open Dittor.Lib

variable {α : Type}

/-! ## Runs -/

/-- What happened to an item. -/
inductive PqueueEvent (α : Type) where
  | added (item : α)
  | popped (item : α)
  | removed (item : α)

/-- The items that were added and not taken out; the last event is the first in the list. -/
def heldItems [DecidableEq α] : List (PqueueEvent α) → List α
  | [] => []
  | .added x :: events => x :: heldItems events
  | .popped x :: events => (heldItems events).erase x
  | .removed x :: events => (heldItems events).erase x

/-- One operation. An item that is added is not in the list, one that is removed is. -/
inductive PqueueStep [DecidableEq α] (compare : α → α → ℤ) (sl : IndexedList α) :
    PqueueEvent α → IndexedList α → Prop
  | add {x : α} {sl' : IndexedList α} (hnew : x ∉ sl.list)
    (h : smartlistPqueueAdd compare sl x = some sl') : PqueueStep compare sl (.added x) sl'
  | pop {x : α} {sl' : IndexedList α} (h : smartlistPqueuePop compare sl = some (x, sl')) :
    PqueueStep compare sl (.popped x) sl'
  | remove {x : α} {sl' : IndexedList α} (hmem : x ∈ sl.list)
    (h : smartlistPqueueRemove compare sl x = some sl') : PqueueStep compare sl (.removed x) sl'

/-- A run: its events, each with the list before it, and the list that it leads to. -/
inductive PqueueRun [DecidableEq α] (compare : α → α → ℤ) :
    List (PqueueEvent α × IndexedList α) → IndexedList α → Prop
  | empty (idxField : α → ℤ) : PqueueRun compare [] ⟨#[], idxField⟩
  | step {run sl e sl'} (hrun : PqueueRun compare run sl) (h : PqueueStep compare sl e sl') :
    PqueueRun compare ((e, sl) :: run) sl'

/-- In every state of a run. -/
def Throughout (P : List (PqueueEvent α × IndexedList α) → IndexedList α → Prop) :
    List (PqueueEvent α × IndexedList α) → IndexedList α → Prop
  | [], sl => P [] sl
  | (e, sl') :: run, sl => P ((e, sl') :: run) sl ∧ Throughout P run sl'

/-- No item is smaller than its parent. -/
def InOrder (compare : α → α → ℤ) (a : Array α) : Prop :=
  ∀ i (h : i < a.size) (hparent : (i - 1) / 2 < a.size), 0 < i → compare a[(i - 1) / 2] a[i] ≤ 0

/-- Indices and contents are right, and the items can be removed. -/
structure Recorded [DecidableEq α] (compare : α → α → ℤ)
    (run : List (PqueueEvent α × IndexedList α)) (sl : IndexedList α) : Prop where
  index : ∀ i (h : i < sl.list.size), sl.idxField sl.list[i] = i
  gone : ∀ x e, e ∈ run.map Prod.fst → e = .popped x ∨ e = .removed x → x ∉ sl.list →
    sl.idxField x = -1
  contents : sl.list.toList.Perm (heldItems (run.map Prod.fst))
  removable : ∀ x ∈ sl.list, ∃ sl', smartlistPqueueRemove compare sl x = some sl'

/-- The queue is in order, and what was popped last was minimal. -/
structure Ordered (compare : α → α → ℤ) (run : List (PqueueEvent α × IndexedList α))
    (sl : IndexedList α) : Prop where
  order : InOrder compare sl.list
  minimal : ∀ x sl' run', run = (.popped x, sl') :: run' → ∀ y ∈ sl'.list, compare x y ≤ 0

/-- The removed item is the last or the first one, or the last one is not smaller than its parent. -/
def Replaceable (compare : α → α → ℤ) (a : Array α) (x : α) : Prop :=
  ∀ i (h : i < a.size) (hparent : (i - 1) / 2 < a.size) (hlast : a.size - 1 < a.size), a[i] = x →
    i = 0 ∨ i = a.size - 1 ∨ compare a[(i - 1) / 2] a[a.size - 1] ≤ 0

section Throughout

variable {P Q : List (PqueueEvent α × IndexedList α) → IndexedList α → Prop}
  {run : List (PqueueEvent α × IndexedList α)} {sl : IndexedList α}

theorem Throughout.last (h : Throughout P run sl) : P run sl := by
  cases run with
  | nil => exact h
  | cons _ _ => exact h.1

theorem Throughout.and (h : Throughout P run sl) (h' : Throughout Q run sl) :
    Throughout (fun run sl => P run sl ∧ Q run sl) run sl := by
  induction run generalizing sl with
  | nil => exact ⟨h, h'⟩
  | cons _ _ ih => exact ⟨⟨h.1, h'.1⟩, ih h.2 h'.2⟩

theorem Throughout.mono (h : Throughout P run sl) (himp : ∀ run sl, P run sl → Q run sl) :
    Throughout Q run sl := by
  induction run generalizing sl with
  | nil => exact himp _ _ h
  | cons _ _ ih => exact ⟨himp _ _ h.1, ih h.2⟩

end Throughout

/-! ## The three operations on the list -/

section Operations

variable {compare : α → α → ℤ} {key : α → ℕ} {sl sl' : IndexedList α} {x : α} {i : ℕ}

theorem inOrder_iff (horder : Orders compare Set.univ) {a : Array α} (hkey : KeyOf compare key a) :
    InOrder compare a ↔ IsHeap key a := by
  have hle : ∀ i j (hi : i < a.size) (hj : j < a.size),
      compare a[i] a[j] ≤ 0 ↔ keyAt key a i ≤ keyAt key a j := by
    intro i j hi hj
    have hlt := hkey _ (Array.getElem_mem hj) _ (Array.getElem_mem hi)
    rw [horder.swap _ trivial _ trivial, keyAt_of_lt key a hi, keyAt_of_lt key a hj]
    omega
  constructor
  · intro h i hpos hi
    have hparent : (i - 1) / 2 < a.size := by omega
    exact (hle _ _ hparent hi).mp (h i hi hparent hpos)
  · intro h i hi hparent hpos
    exact (hle _ _ hparent hi).mpr (h i hpos hi)

variable [DecidableEq α]

theorem smartlistPqueueAdd_spec (hkey : KeyOf compare key (sl.list.push x))
    (h : smartlistPqueueAdd compare sl x = some sl') (hindexed : Indexed sl) (hnew : x ∉ sl.list) :
    sl'.list = pqueueAdd key sl.list x ∧ sl'.list.size ≤ maxCapacity ∧ Indexed sl'
      ∧ ∀ y, y ≠ x → y ∉ sl.list → sl'.idxField y = sl.idxField y := by
  unfold smartlistPqueueAdd at h
  split at h
  · cases h
  · next hcapacity =>
    rw [Option.some.injEq] at h
    have hlist := pqueueAddLoop_list ({ sl with list := sl.list.push x }.setIdx x sl.list.size)
      sl.list.size (by simp [IndexedList.setIdx]) hkey
    have harranged := rearranged_addLoop compare
      ({ sl with list := sl.list.push x }.setIdx x sl.list.size) sl.list.size
      (by simp [IndexedList.setIdx])
    rw [h] at hlist harranged
    refine ⟨hlist, ?_, harranged.indexed (indexed_push hindexed hnew), fun y hy hmem => ?_⟩
    · have hperm := pqueueAdd_perm key sl.list x
      have hlength := hperm.length_eq
      rw [hlist]
      change (pqueueAdd key sl.list x).size ≤ maxCapacity
      rw [← Array.length_toList, hlength, List.length_cons, Array.length_toList]
      omega
    · rw [harranged.others y]
      · exact Function.update_of_ne hy _ _
      · intro hpush
        rcases Array.mem_push.mp hpush with hmem' | rfl
        · exact hmem hmem'
        · exact hy rfl

/-- Popping is removing at the first position. -/
theorem smartlistPqueuePop_eq (h : smartlistPqueuePop compare sl = some (x, sl')) :
    ∃ (hpos : 0 < sl.list.size) (hlt : 0 < (sl.setIdx sl.list[0] (-1)).list.size),
      x = sl.list[0] ∧ sl' = replaceByLast compare (sl.setIdx sl.list[0] (-1)) 0 hlt := by
  unfold smartlistPqueuePop at h
  split at h
  · cases h
  · next hne =>
    rw [Option.some.injEq, Prod.mk.injEq] at h
    exact ⟨by omega, by simp only [IndexedList.setIdx]; omega, h.1.symm, h.2.symm⟩

/-- The index field says where the item is that is removed. -/
theorem smartlistPqueueRemove_eq (compare : α → α → ℤ) (hindexed : Indexed sl) (hmem : x ∈ sl.list) :
    ∃ (i : ℕ) (hi : i < sl.list.size) (hlt : i < (sl.setIdx sl.list[i] (-1)).list.size),
      x = sl.list[i] ∧ smartlistPqueueRemove compare sl x
        = some (replaceByLast compare (sl.setIdx sl.list[i] (-1)) i hlt) := by
  obtain ⟨i, hi, rfl⟩ := Array.getElem_of_mem hmem
  refine ⟨i, hi, hi, rfl, ?_⟩
  have hfield := hindexed i hi
  unfold smartlistPqueueRemove
  rw [dif_pos]
  · simp only [hfield, Int.toNat_natCast]
  · rw [hfield, Int.toNat_natCast]
    exact ⟨by omega, Array.getElem?_eq_getElem hi⟩

/-- What taking out the item at a position leaves. -/
structure TakenOut (compare : α → α → ℤ) (sl : IndexedList α) (i : ℕ) (hi : i < sl.list.size)
    (sl' : IndexedList α) : Prop where
  items : (sl.list[i] :: sl'.list.toList).Perm sl.list.toList
  indexed : Indexed sl'
  others : ∀ x, x = sl.list[i] ∨ x ∉ sl.list →
    sl'.idxField x = if x = sl.list[i] then -1 else sl.idxField x
  order : InOrder compare sl.list → ∀ (hparent : (i - 1) / 2 < sl.list.size)
    (hlast : sl.list.size - 1 < sl.list.size), InOrder compare sl'.list ↔
      i = 0 ∨ i = sl.list.size - 1 ∨ compare sl.list[(i - 1) / 2] sl.list[sl.list.size - 1] ≤ 0

theorem takenOut_replaceByLast (horder : Orders compare Set.univ) (hindexed : Indexed sl)
    (hsize : sl.list.size ≤ maxCapacity) (hi : i < sl.list.size) {hlt} :
    TakenOut compare sl i hi (replaceByLast compare (sl.setIdx sl.list[i] (-1)) i hlt) := by
  have hkey := keyOf_rankIn horder sl.list
  have hlist : (replaceByLast compare (sl.setIdx sl.list[i] (-1)) i hlt).list
      = pqueueRemoveAt (rankIn compare sl.list.toList) sl.list i hi :=
    replaceByLast_list (sl.setIdx sl.list[i] (-1)) hlt hkey hsize
  have hperm := pqueueRemoveAt_perm (rankIn compare sl.list.toList) hi
  refine ⟨hlist ▸ hperm, replaceByLast_indexed hindexed hi,
    fun x hx => replaceByLast_others hindexed hi hx, fun hheap hparent hend => ?_⟩
  have hkey' : KeyOf compare (rankIn compare sl.list.toList)
      (pqueueRemoveAt (rankIn compare sl.list.toList) sl.list i hi) := by
    refine hkey.mono fun x hx => ?_
    rw [← Array.mem_toList_iff] at hx ⊢
    exact hperm.mem_iff.mp (List.mem_cons_of_mem _ hx)
  have hlast : compare sl.list[(i - 1) / 2] sl.list[sl.list.size - 1] ≤ 0
      ↔ keyAt (rankIn compare sl.list.toList) sl.list ((i - 1) / 2)
        ≤ keyAt (rankIn compare sl.list.toList) sl.list (sl.list.size - 1) := by
    have hlt' := hkey sl.list[sl.list.size - 1] (Array.getElem_mem _) sl.list[(i - 1) / 2]
      (Array.getElem_mem _)
    rw [horder.swap _ trivial _ trivial, keyAt_of_lt _ _ hparent, keyAt_of_lt _ _ hend]
    omega
  rw [hlist, inOrder_iff horder hkey',
    isHeap_removeAt_iff ((inOrder_iff horder hkey).mp hheap) hi, hlast]

/-- What an added item leaves. -/
structure PutIn (compare : α → α → ℤ) (sl : IndexedList α) (x : α) (sl' : IndexedList α) :
    Prop where
  items : sl'.list.toList.Perm (x :: sl.list.toList)
  size : sl'.list.size ≤ maxCapacity
  indexed : Indexed sl'
  others : ∀ y, y ≠ x → y ∉ sl.list → sl'.idxField y = sl.idxField y
  order : InOrder compare sl.list → InOrder compare sl'.list

theorem putIn_of_add (horder : Orders compare Set.univ) (hindexed : Indexed sl)
    (hnew : x ∉ sl.list) (h : smartlistPqueueAdd compare sl x = some sl') :
    PutIn compare sl x sl' := by
  have hkey := keyOf_rankIn horder (sl.list.push x)
  have hkey' : KeyOf compare (rankIn compare (sl.list.push x).toList) sl.list :=
    hkey.mono fun _ hy => Array.mem_push.mpr (.inl hy)
  obtain ⟨hlist, hsize, hindexed', hothers⟩ := smartlistPqueueAdd_spec hkey h hindexed hnew
  have hperm := pqueueAdd_perm (rankIn compare (sl.list.push x).toList) sl.list x
  refine ⟨hlist ▸ hperm, hsize, hindexed', hothers, fun hheap => ?_⟩
  rw [hlist, inOrder_iff horder]
  · exact ((inOrder_iff horder hkey').mp hheap).pqueueAdd x
  · refine hkey.mono fun y hy => ?_
    have hmem := hperm.mem_iff.mp (Array.mem_toList_iff.mpr hy)
    rcases List.mem_cons.mp hmem with rfl | hmem
    · exact Array.mem_push.mpr (.inr rfl)
    · exact Array.mem_push.mpr (.inl (Array.mem_toList_iff.mp hmem))

end Operations

/-! ## Indices and contents -/

section Records

variable [DecidableEq α] {compare : α → α → ℤ} {run : List (PqueueEvent α × IndexedList α)}
  {sl sl' : IndexedList α} {e : PqueueEvent α} {x : α}

/-- An operation puts an item in, or takes one out. -/
theorem PqueueStep.cases_spec (horder : Orders compare Set.univ) (hindexed : Indexed sl)
    (hsize : sl.list.size ≤ maxCapacity) (h : PqueueStep compare sl e sl') :
    (∃ x, e = .added x ∧ x ∉ sl.list ∧ PutIn compare sl x sl')
    ∨ (∃ hpos : 0 < sl.list.size, e = .popped sl.list[0] ∧ TakenOut compare sl 0 hpos sl')
    ∨ ∃ (i : ℕ) (hi : i < sl.list.size), e = .removed sl.list[i] ∧ TakenOut compare sl i hi sl' := by
  cases h with
  | add hnew h => exact .inl ⟨_, rfl, hnew, putIn_of_add horder hindexed hnew h⟩
  | pop h =>
    obtain ⟨hpos, hlt, rfl, rfl⟩ := smartlistPqueuePop_eq h
    exact .inr (.inl ⟨hpos, rfl, takenOut_replaceByLast horder hindexed hsize hpos⟩)
  | remove hmem h =>
    obtain ⟨i, hi, hlt, rfl, heq⟩ := smartlistPqueueRemove_eq compare hindexed hmem
    rw [heq, Option.some.injEq] at h
    subst h
    exact .inr (.inr ⟨i, hi, rfl, takenOut_replaceByLast horder hindexed hsize hi⟩)

/-- Taking out an item in the record. -/
theorem Recorded.takenOut (hrec : Recorded compare run sl) {i : ℕ} (hi : i < sl.list.size)
    (h : TakenOut compare sl i hi sl')
    (he : e = .popped sl.list[i] ∨ e = .removed sl.list[i]) :
    Recorded compare ((e, sl) :: run) sl' where
  index := h.indexed
  gone x e' he' htaken hx := by
    by_cases heq : x = sl.list[i]
    · rw [h.others x (.inl heq), if_pos heq]
    · have hold : x ∉ sl.list := by
        intro hmem
        have hmem' := h.items.mem_iff.mpr (Array.mem_toList_iff.mpr hmem)
        rcases List.mem_cons.mp hmem' with hmem' | hmem'
        · exact heq hmem'
        · exact hx (Array.mem_toList_iff.mp hmem')
      rw [h.others x (.inr hold), if_neg heq]
      rw [List.map_cons] at he'
      rcases List.mem_cons.mp he' with rfl | he'
      · rcases htaken with rfl | rfl
        · rcases he with he | he
          · exact absurd (PqueueEvent.popped.inj he) heq
          · cases he
        · rcases he with he | he
          · cases he
          · exact absurd (PqueueEvent.removed.inj he) heq
      · exact hrec.gone x e' he' htaken hold
  contents := by
    have hperm := (h.items.trans hrec.contents).erase sl.list[i]
    rw [List.erase_cons_head] at hperm
    rcases he with rfl | rfl
    · exact hperm
    · exact hperm
  removable x hx := by
    obtain ⟨j, hj, hlt, -, heq⟩ := smartlistPqueueRemove_eq compare h.indexed hx
    exact ⟨_, heq⟩

theorem Recorded.putIn (hrec : Recorded compare run sl) (h : PutIn compare sl x sl') :
    Recorded compare ((.added x, sl) :: run) sl' where
  index := h.indexed
  gone y e' he' htaken hy := by
    have hmem : ∀ z, z ∈ sl'.list ↔ z = x ∨ z ∈ sl.list := by
      intro z
      rw [← Array.mem_toList_iff, h.items.mem_iff, List.mem_cons, Array.mem_toList_iff]
    rw [hmem, not_or] at hy
    rw [h.others y hy.1 hy.2]
    rw [List.map_cons] at he'
    rcases List.mem_cons.mp he' with rfl | he'
    · rcases htaken with htaken | htaken <;> cases htaken
    · exact hrec.gone y e' he' htaken hy.2
  contents := h.items.trans (hrec.contents.cons x)
  removable x hx := by
    obtain ⟨j, hj, hlt, -, heq⟩ := smartlistPqueueRemove_eq compare h.indexed hx
    exact ⟨_, heq⟩

theorem recorded_empty (idxField : α → ℤ) : Recorded compare [] ⟨#[], idxField⟩ where
  index _ h := absurd h (Nat.not_lt_zero _)
  gone _ _ he := absurd he (List.not_mem_nil)
  contents := .refl _
  removable _ hx := absurd hx (Array.not_mem_empty _)

/-- **Indices and contents are right in every state**, whatever is removed. -/
theorem recorded_of_run (horder : Orders compare Set.univ) (hrun : PqueueRun compare run sl) :
    sl.list.size ≤ maxCapacity ∧ Throughout (Recorded compare) run sl := by
  induction hrun with
  | empty idxField => exact ⟨Nat.zero_le _, recorded_empty idxField⟩
  | @step run sl e sl' hrun h ih =>
    obtain ⟨hsize, hrec⟩ := ih
    obtain ⟨x, rfl, -, hput⟩ | ⟨hpos, rfl, htaken⟩ | ⟨i, hi, rfl, htaken⟩ :=
      h.cases_spec horder hrec.last.index hsize
    · exact ⟨hput.size, hrec.last.putIn hput, hrec⟩
    · have hlength := htaken.items.length_eq
      rw [List.length_cons, Array.length_toList, Array.length_toList] at hlength
      exact ⟨by omega, hrec.last.takenOut hpos htaken (.inl rfl), hrec⟩
    · have hlength := htaken.items.length_eq
      rw [List.length_cons, Array.length_toList, Array.length_toList] at hlength
      exact ⟨by omega, hrec.last.takenOut hi htaken (.inr rfl), hrec⟩

end Records

/-! ## The order -/

section Order

variable {compare : α → α → ℤ} {run : List (PqueueEvent α × IndexedList α)}
  {sl sl' : IndexedList α} {e : PqueueEvent α} {x : α}

theorem InOrder.root_le (horder : Orders compare Set.univ) {a : Array α} (h : InOrder compare a)
    (hpos : 0 < a.size) {y : α} (hy : y ∈ a) : compare a[0] y ≤ 0 := by
  have hkey := keyOf_rankIn horder a
  obtain ⟨i, hi, rfl⟩ := Array.getElem_of_mem hy
  have hle := ((inOrder_iff horder hkey).mp h).root_le i hi
  have hlt := hkey _ (Array.getElem_mem hi) _ (Array.getElem_mem hpos)
  rw [keyAt_of_lt _ _ hpos, keyAt_of_lt _ _ hi] at hle
  rw [horder.swap _ trivial _ trivial]
  omega

/-- The one place of the removed item. -/
theorem Indexed.replaceable_iff (hindexed : Indexed sl) (compare : α → α → ℤ) {i : ℕ}
    (hi : i < sl.list.size) (hparent : (i - 1) / 2 < sl.list.size)
    (hlast : sl.list.size - 1 < sl.list.size) :
    Replaceable compare sl.list sl.list[i] ↔ i = 0 ∨ i = sl.list.size - 1
      ∨ compare sl.list[(i - 1) / 2] sl.list[sl.list.size - 1] ≤ 0 := by
  constructor
  · intro h
    exact h i hi hparent hlast rfl
  · intro h j hj _ _ heq
    obtain rfl := hindexed.inj hj hi heq
    exact h

variable [DecidableEq α]

/-- **One operation** keeps the order, unless it is a removal that is not replaceable. -/
theorem PqueueStep.ordered_iff (run : List (PqueueEvent α × IndexedList α))
    (horder : Orders compare Set.univ) (hindexed : Indexed sl) (hsize : sl.list.size ≤ maxCapacity)
    (h : PqueueStep compare sl e sl') (hheap : InOrder compare sl.list) :
    Ordered compare ((e, sl) :: run) sl' ↔ ∀ x, e = .removed x → Replaceable compare sl.list x := by
  obtain ⟨x, rfl, -, hput⟩ | ⟨hpos, rfl, htaken⟩ | ⟨i, hi, rfl, htaken⟩ :=
    h.cases_spec horder hindexed hsize
  · exact iff_of_true ⟨hput.order hheap, fun _ _ _ heq => (by cases heq)⟩ fun _ heq => (by cases heq)
  · refine iff_of_true ⟨(htaken.order hheap hpos (by omega)).mpr (.inl rfl), ?_⟩
      fun _ heq => (by cases heq)
    intro x sl'' run' heq y hy
    rw [List.cons.injEq, Prod.mk.injEq, PqueueEvent.popped.injEq] at heq
    obtain ⟨⟨rfl, rfl⟩, -⟩ := heq
    exact hheap.root_le horder hpos hy
  · have hparent : (i - 1) / 2 < sl.list.size := by omega
    have hlast : sl.list.size - 1 < sl.list.size := by omega
    have hreplaceable := hindexed.replaceable_iff compare hi hparent hlast
    constructor
    · intro hordered x heq
      rw [PqueueEvent.removed.injEq] at heq
      subst heq
      exact hreplaceable.mpr ((htaken.order hheap hparent hlast).mp hordered.order)
    · intro hall
      exact ⟨(htaken.order hheap hparent hlast).mpr (hreplaceable.mp (hall _ rfl)),
        fun _ _ _ heq => (by cases heq)⟩

/-- The order in all states of a run. -/
theorem ordered_of_run_iff (horder : Orders compare Set.univ) (hrun : PqueueRun compare run sl) :
    Throughout (Ordered compare) run sl ↔
      ∀ x sl', (.removed x, sl') ∈ run → Replaceable compare sl'.list x := by
  induction hrun with
  | empty idxField =>
    exact iff_of_true ⟨fun _ h => absurd h (Nat.not_lt_zero _), fun _ _ _ heq => (by cases heq)⟩
      fun _ _ h => absurd h List.not_mem_nil
  | @step run sl e sl' hrun h ih =>
    obtain ⟨hsize, hrec⟩ := recorded_of_run horder hrun
    have hstep := h.ordered_iff run horder hrec.last.index hsize
    constructor
    · rintro ⟨hlast, hbefore⟩ x sl'' hmem
      rcases List.mem_cons.mp hmem with heq | hmem
      · rw [Prod.mk.injEq] at heq
        obtain ⟨rfl, rfl⟩ := heq
        exact (hstep hbefore.last.order).mp hlast x rfl
      · exact ih.mp hbefore x sl'' hmem
    · intro hall
      have hbefore := ih.mpr fun x sl'' hmem => hall x sl'' (List.mem_cons_of_mem _ hmem)
      refine ⟨(hstep hbefore.last.order).mpr fun x heq => ?_, hbefore⟩
      exact hall x sl (heq ▸ List.mem_cons_self)

/-- An item that is not smaller than its parent stays at the end. -/
theorem add_of_inOrder (horder : Orders compare Set.univ)
    (hheap : InOrder compare (sl.list.push x)) (hsize : sl.list.size + 1 ≤ maxCapacity) :
    smartlistPqueueAdd compare sl x
      = some ({ sl with list := sl.list.push x }.setIdx x sl.list.size) := by
  unfold smartlistPqueueAdd
  rw [if_neg (not_not.mpr hsize)]
  dsimp only
  rw [Option.some.injEq, pqueueAddLoop]
  split
  · rfl
  · next hne =>
    have hparent : (sl.list.size - 1) / 2 < (sl.list.push x).size := by
      rw [Array.size_push]
      omega
    have hlast := hheap sl.list.size (by simp) hparent (by omega)
    rw [if_neg]
    have hswap := horder.swap (sl.list.push x)[(sl.list.size - 1) / 2] trivial
      (sl.list.push x)[sl.list.size] trivial
    simp only [IndexedList.setIdx] at hlast hswap ⊢
    omega

/-- **Every heap is reached**, by adding its items from the first to the last. -/
theorem run_of_inOrder (horder : Orders compare Set.univ) (l : List α) (hnodup : l.Nodup)
    (hheap : InOrder compare l.toArray) (hsize : l.length ≤ maxCapacity) :
    ∃ run sl, PqueueRun compare run sl ∧ sl.list = l.toArray
      ∧ ∀ e ∈ run, ∃ x, e.1 = .added x := by
  induction l using List.reverseRecOn with
  | nil => exact ⟨[], ⟨#[], fun _ => -1⟩, .empty _, rfl, fun _ h => absurd h List.not_mem_nil⟩
  | append_singleton l x ih =>
    rw [← List.push_toArray] at hheap ⊢
    rw [List.length_append, List.length_singleton] at hsize
    obtain ⟨hl, -, hdisjoint⟩ := List.nodup_append.mp hnodup
    have hbefore : InOrder compare l.toArray := by
      intro i hi hparent hpos
      have hedge := hheap i (by rw [Array.size_push]; omega) (by rw [Array.size_push]; omega) hpos
      rwa [Array.getElem_push_lt hi, Array.getElem_push_lt (by omega)] at hedge
    obtain ⟨run, sl, hrun, hlist, hadded⟩ := ih hl hbefore (by omega)
    have hnew : x ∉ sl.list := by
      rw [hlist, List.mem_toArray]
      exact fun hmem => hdisjoint x hmem x (List.mem_singleton_self x) rfl
    have hpushed : InOrder compare (sl.list.push x) := by
      rw [hlist]
      exact hheap
    have hadd := add_of_inOrder horder hpushed (by rw [hlist, List.size_toArray]; exact hsize)
    refine ⟨(.added x, sl) :: run, _, .step hrun (.add hnew hadd), ?_, fun e he => ?_⟩
    · simp only [IndexedList.setIdx, hlist]
    · rcases List.mem_cons.mp he with rfl | he
      · exact ⟨x, rfl⟩
      · exact hadded e he

/-- **The priority queue**: in every state of every run the indices and the contents are right. It is
in order in all of them, and what is popped is minimal, exactly if every removed item is the first
or the last one, or the last one is not smaller than the parent of the removed one. -/
theorem pqueue_order_iff (horder : Orders compare Set.univ) (hrun : PqueueRun compare run sl) :
    Throughout (Recorded compare) run sl
    ∧ (Throughout (fun run sl => Recorded compare run sl ∧ Ordered compare run sl) run sl ↔
      ∀ x sl', (.removed x, sl') ∈ run → Replaceable compare sl'.list x) := by
  have hrec := (recorded_of_run horder hrun).2
  refine ⟨hrec, ?_⟩
  rw [← ordered_of_run_iff horder hrun]
  exact ⟨fun h => h.mono fun _ _ h => h.2, fun h => hrec.and h⟩

/-- Three items are added. -/
theorem pqueue_order_three : ∃ run sl, PqueueRun cmpNum run sl ∧ sl.list = #[1, 3, 2]
    ∧ Throughout (fun run sl => Recorded cmpNum run sl ∧ Ordered cmpNum run sl) run sl := by
  obtain ⟨run, sl, hrun, hlist, hadded⟩ := run_of_inOrder (orders_cmpNum (α := ℕ)) [1, 3, 2]
    (by decide) (by unfold InOrder; decide) (by decide)
  refine ⟨run, sl, hrun, hlist, (pqueue_order_iff orders_cmpNum hrun).2.mpr fun x sl' hmem => ?_⟩
  obtain ⟨y, hy⟩ := hadded _ hmem
  cases hy

/-- The item 2 takes the place of 11, under 10. -/
theorem removal_breaks_order : ¬ ∀ (run : List (PqueueEvent ℕ × IndexedList ℕ))
    (sl : IndexedList ℕ), PqueueRun cmpNum run sl →
    Throughout (fun run sl => Recorded cmpNum run sl ∧ Ordered cmpNum run sl) run sl := by
  intro h
  have horder := orders_cmpNum (α := ℕ)
  obtain ⟨run, sl, hrun, hlist, -⟩ := run_of_inOrder horder [0, 10, 1, 11, 12, 2]
    (by decide) (by unfold InOrder; decide) (by decide)
  have hmem : 11 ∈ sl.list := by
    rw [hlist, List.mem_toArray]
    decide
  obtain ⟨sl', hremove⟩ := (recorded_of_run horder hrun).2.last.removable 11 hmem
  have hrun' := hrun.step (.remove hmem hremove)
  have hordered := (h _ _ hrun').mono (Q := Ordered cmpNum) fun _ _ h => h.2
  have hreplaceable := (ordered_of_run_iff horder hrun').mp hordered 11 sl List.mem_cons_self
  rw [hlist] at hreplaceable
  exact absurd (hreplaceable 3 (by decide) (by decide) (by decide) rfl) (by decide)

end Order

end Dittor.Tor

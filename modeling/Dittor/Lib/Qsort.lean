import Mathlib

/-!
# Sorting with `qsort`

The C library promises of `qsort` that the array is a permutation of what it was, and that it
is in order if the comparison function is consistent on its elements; not where elements go
that compare equal. `Qsort` is a sort with these two properties and no others.

What is computed from a sorted array does not depend on the order of the input if elements that
compare equal are equal (`Qsort.sort_eq_of_perm`). The median of a linear order is such a value
(`Qsort.median_eq_of_perm`).
-/

namespace Dittor.Lib

variable {α : Type}

/-- The comparison function is a total preorder on the elements of the array. -/
structure ConsistentOn (cmp : α → α → ℤ) (l : List α) : Prop where
  total : ∀ a ∈ l, ∀ b ∈ l, cmp a b ≤ 0 ∨ cmp b a ≤ 0
  trans : ∀ a ∈ l, ∀ b ∈ l, ∀ c ∈ l, cmp a b ≤ 0 → cmp b c ≤ 0 → cmp a c ≤ 0

/-- Elements that compare equal are equal. -/
def SeparatesOn (cmp : α → α → ℤ) (l : List α) : Prop :=
  ∀ a ∈ l, ∀ b ∈ l, cmp a b ≤ 0 → cmp b a ≤ 0 → a = b

theorem ConsistentOn.mono {cmp : α → α → ℤ} {l l' : List α} (h : ConsistentOn cmp l)
    (hsub : ∀ a ∈ l', a ∈ l) : ConsistentOn cmp l' where
  total a ha b hb := h.total a (hsub a ha) b (hsub b hb)
  trans a ha b hb c hc := h.trans a (hsub a ha) b (hsub b hb) c (hsub c hc)

theorem SeparatesOn.mono {cmp : α → α → ℤ} {l l' : List α} (h : SeparatesOn cmp l)
    (hsub : ∀ a ∈ l', a ∈ l) : SeparatesOn cmp l' :=
  fun a ha b hb => h a (hsub a ha) b (hsub b hb)

/-- `qsort` as far as the C standard describes it. -/
structure Qsort where
  sort {α : Type} : (α → α → ℤ) → List α → List α
  perm {α : Type} (cmp : α → α → ℤ) (l : List α) : (sort cmp l).Perm l
  sorted {α : Type} {cmp : α → α → ℤ} {l : List α} :
    ConsistentOn cmp l → (sort cmp l).Pairwise fun a b => cmp a b ≤ 0

namespace Qsort

variable (Q : Qsort) {cmp : α → α → ℤ} {l l' : List α}

@[simp] theorem mem_sort {a : α} : a ∈ Q.sort cmp l ↔ a ∈ l := (Q.perm cmp l).mem_iff

@[simp] theorem length_sort : (Q.sort cmp l).length = l.length := (Q.perm cmp l).length_eq

/-- The order of the input does not matter where the comparison tells elements apart. -/
theorem sort_eq_of_perm (hperm : l.Perm l') (hcons : ConsistentOn cmp l)
    (hsep : SeparatesOn cmp l) : Q.sort cmp l = Q.sort cmp l' := by
  have hcons' : ConsistentOn cmp l' := hcons.mono fun a ha => hperm.mem_iff.mpr ha
  refine List.Perm.eq_of_pairwise ?_ (Q.sorted hcons) (Q.sorted hcons')
    (((Q.perm cmp l).trans hperm).trans (Q.perm cmp l').symm)
  intro a b ha hb hab hba
  have hb' : b ∈ l := hperm.mem_iff.mpr ((Q.mem_sort).mp hb)
  exact hsep a ((Q.mem_sort).mp ha) b hb' hab hba

/-- A sort that keeps elements that compare equal in their order. -/
def insertion : Qsort where
  sort cmp l := l.insertionSort fun a b => cmp a b ≤ 0
  perm cmp l := List.perm_insertionSort _ l
  sorted {α cmp l} h := by
    -- Mathlib's lemma asks for a total preorder on a type: take that of the elements
    let r : {a // a ∈ l} → {a // a ∈ l} → Prop := fun a b => cmp a.1 b.1 ≤ 0
    have : DecidableRel r := fun a b => inferInstanceAs (Decidable (cmp a.1 b.1 ≤ 0))
    have : Std.Total r := ⟨fun a b => h.total a.1 a.2 b.1 b.2⟩
    have : IsTrans _ r := ⟨fun a b c => h.trans a.1 a.2 b.1 b.2 c.1 c.2⟩
    have hmap := List.map_insertionSort r (fun a b => cmp a b ≤ 0) Subtype.val l.attach
      fun a _ b _ => Iff.rfl
    rw [List.attach_map_subtype_val] at hmap
    rw [← hmap, List.pairwise_map]
    exact List.pairwise_insertionSort r l.attach

end Qsort

/-! ## Comparison functions -/

section LinearOrder

variable [LinearOrder α]

/-- `_cmp_int` and the like -/
def cmpNum (a b : α) : ℤ := if a < b then -1 else if b < a then 1 else 0

theorem cmpNum_le_zero {a b : α} : cmpNum a b ≤ 0 ↔ a ≤ b := by
  unfold cmpNum
  split_ifs with h1 h2
  · exact ⟨fun _ => le_of_lt h1, fun _ => by decide⟩
  · exact ⟨fun h => absurd h (by decide), fun h => absurd h (not_le.mpr h2)⟩
  · exact ⟨fun _ => not_lt.mp h2, fun _ => le_refl 0⟩

theorem consistentOn_cmpNum (l : List α) : ConsistentOn cmpNum l where
  total a _ b _ := by simpa only [cmpNum_le_zero] using le_total a b
  trans a _ b _ c _ := by simpa only [cmpNum_le_zero] using le_trans

theorem separatesOn_cmpNum (l : List α) : SeparatesOn cmpNum l := by
  intro a _ b _ hab hba
  exact le_antisymm (cmpNum_le_zero.mp hab) (cmpNum_le_zero.mp hba)

end LinearOrder

/-- `strcmp`, and `memcmp` of arrays of one length. -/
def strcmp : List UInt8 → List UInt8 → ℤ
  | [], [] => 0
  | [], _ :: _ => -1
  | _ :: _, [] => 1
  | a :: as, b :: bs =>
    if a.toNat < b.toNat then -1 else if b.toNat < a.toNat then 1 else strcmp as bs

theorem strcmp_nil_cons {b : UInt8} {bs : List UInt8} : strcmp [] (b :: bs) = -1 := rfl

theorem strcmp_cons_nil {a : UInt8} {as : List UInt8} : strcmp (a :: as) [] = 1 := rfl

theorem strcmp_cons_self {a : UInt8} {as bs : List UInt8} :
    strcmp (a :: as) (a :: bs) = strcmp as bs := by
  rw [strcmp, if_neg (lt_irrefl _), if_neg (lt_irrefl _)]

theorem strcmp_self : ∀ a : List UInt8, strcmp a a = 0
  | [] => rfl
  | a :: as => by
    rw [strcmp_cons_self]
    exact strcmp_self as

theorem strcmp_cons_le {a b : UInt8} {as bs : List UInt8} :
    strcmp (a :: as) (b :: bs) ≤ 0 ↔ a.toNat < b.toNat ∨ a = b ∧ strcmp as bs ≤ 0 := by
  rcases lt_trichotomy a.toNat b.toNat with h | h | h
  · rw [strcmp, if_pos h]
    exact ⟨fun _ => Or.inl h, fun _ => by decide⟩
  · obtain rfl := UInt8.toNat_inj.mp h
    rw [strcmp_cons_self]
    simp
  · rw [strcmp, if_neg (not_lt_of_gt h), if_pos h]
    refine ⟨fun hle => absurd hle (by decide), fun hor => ?_⟩
    obtain hlt | ⟨rfl, -⟩ := hor
    · exact absurd h (lt_asymm hlt)
    · exact absurd h (lt_irrefl _)

theorem strcmp_swap : ∀ a b : List UInt8, strcmp b a = -strcmp a b
  | [], [] => rfl
  | [], _ :: _ => rfl
  | _ :: _, [] => rfl
  | a :: as, b :: bs => by
    rcases lt_trichotomy a.toNat b.toNat with h | h | h
    · rw [strcmp, strcmp, if_neg (not_lt_of_gt h), if_pos h, if_pos h]
      rfl
    · obtain rfl := UInt8.toNat_inj.mp h
      rw [strcmp_cons_self, strcmp_cons_self]
      exact strcmp_swap as bs
    · rw [strcmp, strcmp, if_pos h, if_neg (not_lt_of_gt h), if_pos h]

theorem strcmp_total (a b : List UInt8) : strcmp a b ≤ 0 ∨ strcmp b a ≤ 0 := by
  rw [strcmp_swap a b]
  omega

theorem strcmp_trans : ∀ a b c : List UInt8, strcmp a b ≤ 0 → strcmp b c ≤ 0 → strcmp a c ≤ 0
  | [], _, [] => fun _ _ => le_refl 0
  | [], _, _ :: _ => fun _ _ => by rw [strcmp_nil_cons]; decide
  | _ :: _, [], _ => fun h _ => absurd h (by rw [strcmp_cons_nil]; decide)
  | _ :: _, _ :: _, [] => fun _ h => absurd h (by rw [strcmp_cons_nil]; decide)
  | a :: as, b :: bs, c :: cs => by
    simp only [strcmp_cons_le]
    intro hab hbc
    obtain hab | ⟨rfl, hs⟩ := hab
    · obtain hbc | ⟨rfl, -⟩ := hbc
      · exact Or.inl (lt_trans hab hbc)
      · exact Or.inl hab
    · exact hbc.imp_right fun ⟨h, hs'⟩ => ⟨h, strcmp_trans as bs cs hs hs'⟩

theorem strcmp_antisymm : ∀ {a b : List UInt8}, strcmp a b ≤ 0 → strcmp b a ≤ 0 → a = b
  | [], [] => fun _ _ => rfl
  | [], _ :: _ => fun _ h => absurd h (by rw [strcmp_cons_nil]; decide)
  | _ :: _, [] => fun h _ => absurd h (by rw [strcmp_cons_nil]; decide)
  | a :: as, b :: bs => by
    simp only [strcmp_cons_le]
    intro hab hba
    obtain hab | ⟨rfl, hs⟩ := hab
    · obtain hba | ⟨rfl, -⟩ := hba
      · exact absurd hab (lt_asymm hba)
      · exact absurd hab (lt_irrefl _)
    · obtain hba | ⟨-, hs'⟩ := hba
      · exact absurd hba (lt_irrefl _)
      · rw [strcmp_antisymm hs hs']

theorem strcmp_eq_zero {a b : List UInt8} : strcmp a b = 0 ↔ a = b := by
  constructor
  · intro h
    exact strcmp_antisymm (le_of_eq h) (by rw [strcmp_swap, h]; decide)
  · rintro rfl
    exact strcmp_self a

theorem strcmp_lt_trans {a b c : List UInt8} (hab : strcmp a b < 0) (hbc : strcmp b c < 0) :
    strcmp a c < 0 := by
  refine lt_of_le_of_ne (strcmp_trans a b c (le_of_lt hab) (le_of_lt hbc)) ?_
  intro hac
  obtain rfl := strcmp_eq_zero.mp hac
  rw [strcmp_swap] at hbc
  omega

theorem consistentOn_strcmp (l : List (List UInt8)) : ConsistentOn strcmp l where
  total a _ b _ := strcmp_total a b
  trans a _ b _ c _ := strcmp_trans a b c

theorem separatesOn_strcmp (l : List (List UInt8)) : SeparatesOn strcmp l :=
  fun _ _ _ _ => strcmp_antisymm

/-! ## The median -/

section Statistics

variable [LinearOrder α]

/-- `median_int` and the like, with the assertion of `find_nth_int` that there are elements. -/
def Qsort.median (Q : Qsort) (l : List α) : Option α := (Q.sort cmpNum l)[(l.length - 1) / 2]?

variable (Q : Qsort) {l : List α}

theorem Qsort.median_isSome (h : l ≠ []) : ∃ m, Q.median l = some m := by
  have hlen := List.length_pos_iff.mpr h
  have hlt : (l.length - 1) / 2 < (Q.sort cmpNum l).length := by rw [Q.length_sort]; omega
  exact ⟨_, List.getElem?_eq_getElem hlt⟩

theorem Qsort.sort_sorted : (Q.sort cmpNum l).Pairwise (· ≤ ·) :=
  (Q.sorted (consistentOn_cmpNum l)).imp cmpNum_le_zero.mp

theorem Qsort.median_eq_of_perm {l l' : List α} (h : l.Perm l') : Q.median l = Q.median l' := by
  rw [Qsort.median, Qsort.median, Q.sort_eq_of_perm h (consistentOn_cmpNum l)
    (separatesOn_cmpNum l), h.length_eq]

end Statistics

end Dittor.Lib

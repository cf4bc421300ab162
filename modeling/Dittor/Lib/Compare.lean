import Mathlib
import Dittor.Lib.Qsort

/-!
# Comparison functions

The sign of a comparison function says which of two elements comes first; where it is zero the two
are equated. `Orders cmp s` says that this makes a total preorder of the set `s`, so that the
function equates the elements of a class and orders the classes. What is compared field by field,
the first difference deciding, is ordered by this as well (`Orders.thenBy`).
-/

namespace Dittor.Lib

variable {α β : Type}

/-- On the elements of `s` the function is a total preorder, the same from both sides. -/
structure Orders (cmp : α → α → ℤ) (s : Set α) : Prop where
  swap : ∀ a ∈ s, ∀ b ∈ s, cmp a b ≤ 0 ↔ 0 ≤ cmp b a
  trans : ∀ a ∈ s, ∀ b ∈ s, ∀ c ∈ s, cmp a b ≤ 0 → cmp b c ≤ 0 → cmp a c ≤ 0

/-- The first of two comparisons that makes a difference. -/
def thenBy (c c' : ℤ) : ℤ := if c ≠ 0 then c else c'

theorem thenBy_le {c c' : ℤ} : thenBy c c' ≤ 0 ↔ c < 0 ∨ c = 0 ∧ c' ≤ 0 := by
  unfold thenBy
  split_ifs with h <;> omega

theorem thenBy_eq_zero {c c' : ℤ} : thenBy c c' = 0 ↔ c = 0 ∧ c' = 0 := by
  unfold thenBy
  split_ifs with h <;> omega

namespace Orders

variable {cmp cmp' : α → α → ℤ} {s t : Set α} {a b c : α}

theorem mono (h : Orders cmp s) (hsub : t ⊆ s) : Orders cmp t where
  swap a ha b hb := h.swap a (hsub ha) b (hsub hb)
  trans a ha b hb c hc := h.trans a (hsub ha) b (hsub hb) c (hsub hc)

theorem self (h : Orders cmp s) (ha : a ∈ s) : cmp a a = 0 := by
  have := h.swap a ha a ha
  omega

theorem symm (h : Orders cmp s) (ha : a ∈ s) (hb : b ∈ s) : cmp a b = 0 ↔ cmp b a = 0 := by
  have := h.swap a ha b hb
  have := h.swap b hb a ha
  omega

theorem lt_iff (h : Orders cmp s) (ha : a ∈ s) (hb : b ∈ s) : cmp a b < 0 ↔ 0 < cmp b a := by
  have := h.swap b hb a ha
  omega

theorem total (h : Orders cmp s) (ha : a ∈ s) (hb : b ∈ s) : cmp a b ≤ 0 ∨ cmp b a ≤ 0 := by
  have := h.swap a ha b hb
  omega

theorem eq_trans (h : Orders cmp s) (ha : a ∈ s) (hb : b ∈ s) (hc : c ∈ s)
    (hab : cmp a b = 0) (hbc : cmp b c = 0) : cmp a c = 0 := by
  have hac := h.trans a ha b hb c hc hab.le hbc.le
  have hca := h.trans c hc b hb a ha ((h.symm hb hc).mp hbc).le ((h.symm ha hb).mp hab).le
  have := h.swap c hc a ha
  omega

theorem lt_of_lt_of_le (h : Orders cmp s) (ha : a ∈ s) (hb : b ∈ s) (hc : c ∈ s)
    (hab : cmp a b < 0) (hbc : cmp b c ≤ 0) : cmp a c < 0 := by
  by_contra hac
  have hca : cmp c a ≤ 0 := (h.swap c hc a ha).mpr (by omega)
  have hba := h.trans b hb c hc a ha hbc hca
  have := (h.lt_iff ha hb).mp hab
  omega

theorem lt_of_le_of_lt (h : Orders cmp s) (ha : a ∈ s) (hb : b ∈ s) (hc : c ∈ s)
    (hab : cmp a b ≤ 0) (hbc : cmp b c < 0) : cmp a c < 0 := by
  by_contra hac
  have hca : cmp c a ≤ 0 := (h.swap c hc a ha).mpr (by omega)
  have hcb := h.trans c hc a ha b hb hca hab
  have := (h.lt_iff hb hc).mp hbc
  omega

/-- Elements of one class compare alike with all others. -/
theorem congr_left (h : Orders cmp s) (ha : a ∈ s) (hb : b ∈ s) (hc : c ∈ s) (hab : cmp a b = 0) :
    cmp a c = 0 ↔ cmp b c = 0 :=
  ⟨h.eq_trans hb ha hc ((h.symm ha hb).mp hab), h.eq_trans ha hb hc hab⟩

theorem consistentOn (h : Orders cmp s) {l : List α} (hl : ∀ a ∈ l, a ∈ s) :
    ConsistentOn cmp l where
  total _ ha _ hb := h.total (hl _ ha) (hl _ hb)
  trans a ha b hb c hc := h.trans a (hl a ha) b (hl b hb) c (hl c hc)

theorem congr (h : Orders cmp s) (heq : ∀ a ∈ s, ∀ b ∈ s, cmp' a b = cmp a b) : Orders cmp' s where
  swap a ha b hb := by
    rw [heq a ha b hb, heq b hb a ha]
    exact h.swap a ha b hb
  trans a ha b hb c hc := by
    rw [heq a ha b hb, heq b hb c hc, heq a ha c hc]
    exact h.trans a ha b hb c hc

/-- Compared by a second function where the first equates. -/
theorem thenBy (h : Orders cmp s) (h' : Orders cmp' s) :
    Orders (fun a b => Lib.thenBy (cmp a b) (cmp' a b)) s where
  swap a ha b hb := by
    have hlt := h.lt_iff ha hb
    have hsymm := h.symm ha hb
    have hswap := h'.swap a ha b hb
    unfold Lib.thenBy
    split_ifs <;> omega
  trans a ha b hb c hc := by
    simp only [thenBy_le]
    intro hab hbc
    rcases hab with hab | ⟨hab, hab'⟩
    · exact .inl (h.lt_of_lt_of_le ha hb hc hab (by omega))
    · rcases hbc with hbc | ⟨hbc, hbc'⟩
      · exact .inl (h.lt_of_le_of_lt ha hb hc hab.le hbc)
      · exact .inr ⟨h.eq_trans ha hb hc hab hbc, h'.trans a ha b hb c hc hab' hbc'⟩

/-- Compared the other way around. -/
theorem reverse (h : Orders cmp s) : Orders (fun a b => cmp b a) s where
  swap a ha b hb := h.swap b hb a ha
  trans a ha b hb c hc hab hbc := h.trans c hc b hb a ha hbc hab

/-- Compared by what a function makes of the elements. -/
theorem comap {cmp : β → β → ℤ} {s : Set β} (h : Orders cmp s) (f : α → β) :
    Orders (fun a b => cmp (f a) (f b)) (Set.preimage f s) where
  swap a ha b hb := h.swap (f a) ha (f b) hb
  trans a ha b hb c hc := h.trans (f a) ha (f b) hb (f c) hc

end Orders

theorem orders_strcmp : Orders strcmp Set.univ where
  swap a _ b _ := by
    rw [strcmp_swap b a]
    omega
  trans a _ b _ c _ := strcmp_trans a b c

/-- Everything is equated. -/
theorem orders_zero {s : Set α} : Orders (fun _ _ => 0) s where
  swap _ _ _ _ := Iff.rfl
  trans _ _ _ _ _ _ _ _ := le_rfl

theorem cmpNum_swap [LinearOrder α] (a b : α) : cmpNum b a = -cmpNum a b := by
  unfold cmpNum
  split_ifs with h1 h2 h2
  · exact absurd h1 (lt_asymm h2)
  · rfl
  · rfl
  · rfl

theorem cmpNum_eq_zero [LinearOrder α] {a b : α} : cmpNum a b = 0 ↔ a = b := by
  have hle := cmpNum_le_zero (a := a) (b := b)
  have hge := cmpNum_le_zero (a := b) (b := a)
  rw [cmpNum_swap a b] at hge
  rw [le_antisymm_iff (a := a), ← hle, ← hge]
  omega

theorem orders_cmpNum [LinearOrder α] : Orders (cmpNum (α := α)) Set.univ where
  swap a _ b _ := by
    rw [cmpNum_swap a b]
    omega
  trans a _ b _ c _ := by
    simp only [cmpNum_le_zero]
    exact le_trans

end Dittor.Lib

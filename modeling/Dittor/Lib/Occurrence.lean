import Mathlib.Data.List.Infix

/-!
# The first occurrence of a string

`FirstOccurrence s l r` says that `r` is the first place at which `s` occurs in `l`, or `none` where
it does not occur. A search that goes from one occurrence of the first item to the next uses two
rules: up to that item there is nothing (`FirstOccurrence.of_findIdx`), and where the string does
not start it starts behind (`FirstOccurrence.cons`).
-/

namespace Dittor.Lib

variable {α : Type*}

/-- The first place at which `s` occurs in `l`. -/
def FirstOccurrence (s l : List α) : Option ℕ → Prop
  | some k => s <+: l.drop k ∧ ∀ j < k, ¬ s <+: l.drop j
  | none => ∀ j, ¬ s <+: l.drop j

namespace FirstOccurrence

variable {s l : List α} {r : Option ℕ} {x : α}

theorem here (h : s <+: l) : FirstOccurrence s l (some 0) :=
  ⟨h, fun j hj => absurd hj (Nat.not_lt_zero j)⟩

/-- A string that does not start here. -/
theorem cons (hno : ¬ s <+: x :: l) (h : FirstOccurrence s l r) :
    FirstOccurrence s (x :: l) (r.map (· + 1)) := by
  cases r with
  | none =>
    intro j
    cases j with
    | zero => exact hno
    | succ j => exact h j
  | some k =>
    refine ⟨h.1, ?_⟩
    intro j hj
    cases j with
    | zero => exact hno
    | succ j => exact h.2 j (Nat.lt_of_succ_lt_succ hj)

/-- Nothing starts before the first item that the string starts with. -/
theorem of_findIdx {p : α → Bool} {k : ℕ} (hs : s ≠ []) (hp : ∀ y ∈ s.head?, p y = true)
    (hk : l.findIdx? p = some k) (h : FirstOccurrence s (l.drop k) r) :
    FirstOccurrence s l (r.map (· + k)) := by
  have hbefore : ∀ j < k, ¬ s <+: l.drop j := by
    intro j hj hpre
    obtain ⟨hlt, _, hno⟩ := List.findIdx?_eq_some_iff_getElem.mp hk
    obtain ⟨y, s', rfl⟩ := List.exists_cons_of_ne_nil hs
    rw [List.drop_eq_getElem_cons (by omega)] at hpre
    obtain ⟨hy, -⟩ := List.cons_prefix_cons.mp hpre
    exact hno j hj (hy ▸ hp y rfl)
  cases r with
  | none =>
    intro j
    rcases Nat.lt_or_ge j k with hj | hj
    · exact hbefore j hj
    · have := h (j - k)
      rw [List.drop_drop, show k + (j - k) = j by omega] at this
      exact this
  | some m =>
    obtain ⟨hpre, hno⟩ := h
    rw [List.drop_drop] at hpre
    show s <+: l.drop (m + k) ∧ ∀ j < m + k, ¬ s <+: l.drop j
    rw [Nat.add_comm m k]
    refine ⟨hpre, ?_⟩
    intro j hj
    rcases Nat.lt_or_ge j k with hjk | hjk
    · exact hbefore j hjk
    · have := hno (j - k) (by omega)
      rw [List.drop_drop, show k + (j - k) = j by omega] at this
      exact this

/-- Without the first item there is no occurrence. -/
theorem absent {p : α → Bool} (hs : s ≠ []) (hp : ∀ y ∈ s.head?, p y = true)
    (hk : l.findIdx? p = none) : FirstOccurrence s l none := by
  intro j hpre
  obtain ⟨y, s', rfl⟩ := List.exists_cons_of_ne_nil hs
  have hmem : y ∈ l := List.mem_of_mem_drop (hpre.subset List.mem_cons_self)
  have hno := List.findIdx?_eq_none_iff.mp hk y hmem
  rw [hp y rfl] at hno
  exact absurd hno (by simp)

end FirstOccurrence

end Dittor.Lib

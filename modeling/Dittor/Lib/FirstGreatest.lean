import Mathlib

/-!
# The first greatest element of a list

A register that keeps what it has unless something strictly greater comes
along. After any sequence it holds the *first* of the greatest elements
(`firstGreatest_iff`), so its content depends on the order of the sequence
exactly where greatest elements differ.
-/

namespace Dittor.Lib

variable {α β : Type*} [LinearOrder β] (f : α → β)

/-- Keep the old element unless the new one is strictly greater. -/
def keepGreater (old : Option α) (v : α) : Option α :=
  match old with
  | none => some v
  | some w => if f w < f v then some v else some w

/-- What is kept of a sequence. -/
def firstGreatest (l : List α) : Option α := l.foldl (keepGreater f) none

/-- Nothing is greater, and what comes before is smaller. -/
structure IsFirstGreatest (l : List α) (w : α) : Prop where
  split : ∃ a b, l = a ++ w :: b ∧ ∀ x ∈ a, f x < f w
  greatest : ∀ x ∈ l, f x ≤ f w

variable {f} {l l' : List α} {v w : α}

theorem IsFirstGreatest.mem (h : IsFirstGreatest f l w) : w ∈ l := by
  obtain ⟨a, b, rfl, -⟩ := h.split
  exact List.mem_append_right a List.mem_cons_self

theorem firstGreatest_concat : firstGreatest f (l ++ [v]) = keepGreater f (firstGreatest f l) v := by
  rw [firstGreatest, List.foldl_append]
  rfl

theorem firstGreatest_eq_none : firstGreatest f l = none ↔ l = [] := by
  induction l using List.reverseRecOn with
  | nil => exact ⟨fun _ => rfl, fun _ => rfl⟩
  | append_singleton l v _ =>
    rw [firstGreatest_concat]
    refine ⟨fun h => ?_, fun h => absurd h (by simp)⟩
    unfold keepGreater at h
    split at h
    · exact absurd h (by simp)
    · split at h
      · exact absurd h (by simp)
      · exact absurd h (by simp)

theorem isFirstGreatest_of_eq : ∀ {l : List α} {w : α}, firstGreatest f l = some w →
    IsFirstGreatest f l w := by
  intro l
  induction l using List.reverseRecOn with
  | nil => intro w h; exact absurd h (by simp [firstGreatest])
  | append_singleton l v ih =>
    intro w h
    rw [firstGreatest_concat] at h
    cases hl : firstGreatest f l with
    | none =>
      rw [hl] at h
      have hnil := firstGreatest_eq_none.mp hl
      subst hnil
      have hvw : v = w := Option.some.inj h
      subst hvw
      exact ⟨⟨[], [], rfl, by simp⟩, by simp⟩
    | some u =>
      have hu := ih hl
      rw [hl] at h
      dsimp only [keepGreater] at h
      split at h
      next hlt =>
        have hvw : v = w := Option.some.inj h
        subst hvw
        have hbefore : ∀ x ∈ l, f x < f v := fun x hx => lt_of_le_of_lt (hu.greatest x hx) hlt
        refine ⟨⟨l, [], rfl, hbefore⟩, fun x hx => ?_⟩
        rcases List.mem_append.mp hx with hx | hx
        · exact le_of_lt (hbefore x hx)
        · rw [List.mem_singleton.mp hx]
      next hge =>
        have huw : u = w := Option.some.inj h
        subst huw
        obtain ⟨a, b, rfl, hbefore⟩ := hu.split
        refine ⟨⟨a, b ++ [v], by simp, hbefore⟩, fun x hx => ?_⟩
        rcases List.mem_append.mp hx with hx | hx
        · exact hu.greatest x hx
        · rw [List.mem_singleton.mp hx]
          exact le_of_not_gt hge

/-- There is one first greatest element. -/
theorem IsFirstGreatest.unique (h : IsFirstGreatest f l v) (h' : IsFirstGreatest f l w) : v = w := by
  obtain ⟨a, b, hl, ha⟩ := h.split
  obtain ⟨a', b', hl', ha'⟩ := h'.split
  have hle : f w ≤ f v := h.greatest w h'.mem
  have hle' : f v ≤ f w := h'.greatest v h.mem
  rw [hl] at hl'
  -- whichever stands first is not below the other
  rcases List.append_eq_append_iff.mp hl' with ⟨c, hc, hc'⟩ | ⟨c, hc, hc'⟩
  · cases c with
    | nil => exact (List.cons.inj hc').1
    | cons x c =>
      have hx : v ∈ a' := by
        rw [hc, (List.cons.inj hc').1]
        exact List.mem_append_right a List.mem_cons_self
      exact absurd (ha' v hx) (not_lt.mpr hle)
  · cases c with
    | nil => exact (List.cons.inj hc').1.symm
    | cons x c =>
      have hx : w ∈ a := by
        rw [hc, (List.cons.inj hc').1]
        exact List.mem_append_right a' List.mem_cons_self
      exact absurd (ha w hx) (not_lt.mpr hle')

/-- **What is kept is the first greatest element.** -/
theorem firstGreatest_iff : firstGreatest f l = some w ↔ IsFirstGreatest f l w := by
  refine ⟨isFirstGreatest_of_eq, fun h => ?_⟩
  cases hl : firstGreatest f l with
  | none =>
    have hnil := firstGreatest_eq_none.mp hl
    subst hnil
    exact absurd h.mem (by simp)
  | some u => rw [(isFirstGreatest_of_eq hl).unique h]

/-- A first part that holds a greatest element decides. -/
theorem IsFirstGreatest.append (h : IsFirstGreatest f l w) (hrest : ∀ x ∈ l', f x ≤ f w) :
    IsFirstGreatest f (l ++ l') w := by
  obtain ⟨a, b, rfl, ha⟩ := h.split
  refine ⟨⟨a, b ++ l', by simp, ha⟩, fun x hx => ?_⟩
  rcases List.mem_append.mp hx with hx | hx
  · exact h.greatest x hx
  · exact hrest x hx

end Dittor.Lib

import Mathlib

/-!
# Longest common subsequences

The length of a longest common subsequence by its recurrence, and what it is: no common subsequence
is longer (`Common.length_le`) and one is as long (`exists_common`). From these two it follows that
the direction and the order of the lists do not matter, that common ends count in full, and that a
list cut in two can be matched with the two parts of some cut of the other (`lcsLength_split`).
-/

namespace Dittor.Lib

variable {α : Type*} [DecidableEq α]

/-- The length of a longest common subsequence. -/
def lcsLength : List α → List α → ℕ
  | [], _ => 0
  | _ :: _, [] => 0
  | a :: as, b :: bs =>
    if a = b then lcsLength as bs + 1
    else max (lcsLength as (b :: bs)) (lcsLength (a :: as) bs)
termination_by l r => l.length + r.length

/-- A common subsequence. -/
def Common (s l r : List α) : Prop := s.Sublist l ∧ s.Sublist r

variable {s l r : List α} {a b : α}

omit [DecidableEq α] in
theorem Common.symm (h : Common s l r) : Common s r l := ⟨h.2, h.1⟩

omit [DecidableEq α] in
theorem Common.reverse (h : Common s l r) : Common s.reverse l.reverse r.reverse :=
  ⟨h.1.reverse, h.2.reverse⟩

@[simp] theorem lcsLength_nil_left (r : List α) : lcsLength [] r = 0 := by
  rw [lcsLength]

@[simp] theorem lcsLength_nil_right (l : List α) : lcsLength l [] = 0 := by
  cases l <;> rw [lcsLength]

theorem lcsLength_cons_self (a : α) (l r : List α) :
    lcsLength (a :: l) (a :: r) = lcsLength l r + 1 := by
  rw [lcsLength, if_pos rfl]

theorem lcsLength_cons_of_ne (h : a ≠ b) (l r : List α) : lcsLength (a :: l) (b :: r)
    = max (lcsLength l (b :: r)) (lcsLength (a :: l) r) := by
  rw [lcsLength, if_neg h]

/-! ## What it is -/

/-- **No common subsequence is longer.** -/
theorem Common.length_le : ∀ {l r s : List α}, Common s l r → s.length ≤ lcsLength l r := by
  intro l r
  fun_induction lcsLength l r with
  | case1 r =>
    intro s h
    rw [List.sublist_nil.mp h.1]
    exact le_rfl
  | case2 a l =>
    intro s h
    rw [List.sublist_nil.mp h.2]
    exact le_rfl
  | case3 l a r ih =>
    intro s h
    have htail : Common s.tail l r := ⟨h.1.tail, h.2.tail⟩
    have hle := ih htail
    rw [List.length_tail] at hle
    omega
  | case4 a l b r hne ihl ihr =>
    intro s h
    rcases List.sublist_cons_iff.mp h.1 with hl | ⟨t, rfl, -⟩
    · exact (ihl ⟨hl, h.2⟩).trans (le_max_left _ _)
    · rcases List.sublist_cons_iff.mp h.2 with hr | ⟨t', heq, -⟩
      · exact (ihr ⟨h.1, hr⟩).trans (le_max_right _ _)
      · exact absurd (List.cons.inj heq).1 hne

/-- **One is as long.** -/
theorem exists_common (l r : List α) : ∃ s, Common s l r ∧ s.length = lcsLength l r := by
  fun_induction lcsLength l r with
  | case1 r => exact ⟨[], ⟨List.nil_sublist _, List.nil_sublist _⟩, rfl⟩
  | case2 a l => exact ⟨[], ⟨List.nil_sublist _, List.nil_sublist _⟩, rfl⟩
  | case3 l a r ih =>
    obtain ⟨s, h, hlen⟩ := ih
    refine ⟨a :: s, ⟨h.1.cons_cons a, h.2.cons_cons a⟩, ?_⟩
    rw [List.length_cons, hlen]
  | case4 a l b r hne ihl ihr =>
    obtain ⟨s, h, hlen⟩ := ihl
    obtain ⟨s', h', hlen'⟩ := ihr
    rcases max_choice (lcsLength l (b :: r)) (lcsLength (a :: l) r) with hmax | hmax
    · exact ⟨s, ⟨h.1.cons a, h.2⟩, by rw [hmax, hlen]⟩
    · exact ⟨s', ⟨h'.1, h'.2.cons b⟩, by rw [hmax, hlen']⟩

theorem lcsLength_comm (l r : List α) : lcsLength l r = lcsLength r l := by
  have hle : ∀ l r : List α, lcsLength l r ≤ lcsLength r l := fun l r => by
    obtain ⟨s, h, hlen⟩ := exists_common l r
    rw [← hlen]
    exact h.symm.length_le
  exact le_antisymm (hle l r) (hle r l)

theorem lcsLength_reverse (l r : List α) : lcsLength l.reverse r.reverse = lcsLength l r := by
  have hle : ∀ l r : List α, lcsLength l r ≤ lcsLength l.reverse r.reverse := fun l r => by
    obtain ⟨s, h, hlen⟩ := exists_common l r
    rw [← hlen, ← List.length_reverse]
    exact h.reverse.length_le
  refine le_antisymm ?_ (hle l r)
  have h := hle l.reverse r.reverse
  rwa [List.reverse_reverse, List.reverse_reverse] at h

theorem lcsLength_singleton (a : α) (l : List α) :
    lcsLength [a] l = if a ∈ l then 1 else 0 := by
  induction l with
  | nil => simp
  | cons b l ih =>
    by_cases hab : a = b
    · rw [hab, lcsLength_cons_self, lcsLength_nil_left, if_pos List.mem_cons_self]
    · rw [lcsLength_cons_of_ne hab, lcsLength_nil_left, Nat.zero_max, ih]
      simp [hab]

/-! ## Ends and cuts -/

theorem lcsLength_append_left (p l r : List α) :
    lcsLength (p ++ l) (p ++ r) = p.length + lcsLength l r := by
  induction p with
  | nil => simp
  | cons a p ih =>
    rw [List.cons_append, List.cons_append, lcsLength_cons_self, ih, List.length_cons]
    omega

theorem lcsLength_append_right (l r p : List α) :
    lcsLength (l ++ p) (r ++ p) = lcsLength l r + p.length := by
  rw [← lcsLength_reverse, List.reverse_append, List.reverse_append, lcsLength_append_left,
    lcsLength_reverse, List.length_reverse, Nat.add_comm]

/-- The recurrence at the last elements. -/
theorem lcsLength_concat (l r : List α) (a b : α) : lcsLength (l ++ [a]) (r ++ [b])
    = if a = b then lcsLength l r + 1
      else max (lcsLength (l ++ [a]) r) (lcsLength l (r ++ [b])) := by
  rw [← lcsLength_reverse, List.reverse_append, List.reverse_append]
  simp only [List.reverse_singleton, List.singleton_append]
  split
  · rename_i hab
    rw [hab, lcsLength_cons_self, lcsLength_reverse]
  · rename_i hab
    rw [lcsLength_cons_of_ne hab, max_comm, ← lcsLength_reverse (l ++ [a]) r,
      ← lcsLength_reverse l (r ++ [b]), List.reverse_append, List.reverse_append]
    rfl

/-- What is matched in both parts of a cut is matched in the whole. -/
theorem lcsLength_add_le (l l' r r' : List α) :
    lcsLength l r + lcsLength l' r' ≤ lcsLength (l ++ l') (r ++ r') := by
  obtain ⟨s, h, hlen⟩ := exists_common l r
  obtain ⟨s', h', hlen'⟩ := exists_common l' r'
  rw [← hlen, ← hlen', ← List.length_append]
  exact Common.length_le ⟨h.1.append h'.1, h.2.append h'.2⟩

/-- **A cut of the one list** has a cut of the other with which nothing is lost. -/
theorem lcsLength_split (l l' r : List α) : ∃ k ≤ r.length,
    lcsLength (l ++ l') r = lcsLength l (r.take k) + lcsLength l' (r.drop k) := by
  obtain ⟨s, h, hlen⟩ := exists_common (l ++ l') r
  obtain ⟨s₁, s₂, rfl, hl, hl'⟩ := List.sublist_append_iff.mp h.1
  obtain ⟨r₁, r₂, rfl, hr, hr'⟩ := List.append_sublist_iff.mp h.2
  refine ⟨r₁.length, by simp, ?_⟩
  rw [List.take_left, List.drop_left]
  refine le_antisymm ?_ (lcsLength_add_le l l' r₁ r₂)
  rw [← hlen, List.length_append]
  exact Nat.add_le_add (Common.length_le ⟨hl, hr⟩) (Common.length_le ⟨hl', hr'⟩)

end Dittor.Lib

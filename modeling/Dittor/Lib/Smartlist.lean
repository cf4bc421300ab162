import Mathlib

/-!
# Lists that are changed in place

Arrays of pointers whose elements are removed by moving the last element into
the gap. A pointer to an element is its index; `swapRemove` is the removal, and
up to order it is `List.eraseIdx`, which is all that a set of elements or a
list without duplicates depends on.

The second half walks over a sorted array run by run, where a run is a block of
elements that compare equal to its first one.
-/

namespace Dittor.Lib

variable {α β : Type*}

/-- Remove the element at `i` by putting the last one in its place. -/
def swapRemove (i : ℕ) (l : List α) : List α :=
  match l.getLast? with
  | none => []
  | some e => (l.set i e).dropLast

theorem swapRemove_perm {i : ℕ} {l : List α} (h : i < l.length) :
    (swapRemove i l).Perm (l.eraseIdx i) := by
  obtain ⟨a, x, b, rfl, rfl⟩ : ∃ a x b, l = a ++ x :: b ∧ i = a.length :=
    ⟨l.take i, l[i], l.drop (i + 1), by simp, by simp; omega⟩
  rcases List.eq_nil_or_concat b with rfl | ⟨b, y, rfl⟩
  · simp [swapRemove, List.eraseIdx_append_of_length_le]
  · have hlast : (a ++ x :: (b ++ [y])).getLast? = some y := by
      rw [← List.cons_append, ← List.append_assoc, List.getLast?_concat]
    simp only [swapRemove, List.concat_eq_append, hlast]
    rw [List.set_append_right _ _ (Nat.le_refl _), Nat.sub_self, List.set_cons_zero,
      List.eraseIdx_append_of_length_le (Nat.le_refl _), Nat.sub_self, List.eraseIdx_cons_zero]
    have hdrop : (a ++ y :: (b ++ [y])).dropLast = a ++ y :: b := by
      rw [← List.cons_append, ← List.append_assoc, List.dropLast_concat]
    rw [hdrop]
    exact List.Perm.append_left a (List.perm_append_singleton y b).symm

/-! ## Runs of a sorted array -/

/-- `smartlist_uniq`: an element goes if it compares equal to the one that is left before it. -/
def smartlistUniq (cmp : α → α → ℤ) : List α → List α
  | [] => []
  | a :: l => a :: go a l
where
  go (last : α) : List α → List α
    | [] => []
    | b :: l => if cmp last b = 0 then go last l else b :: go b l

section Uniq

variable {cmp : α → α → ℤ}

theorem mem_uniq_go (hcmp : ∀ a b, cmp a b = 0 → a = b) {x : α} :
    ∀ {l : List α} {last : α}, x ∈ last :: smartlistUniq.go cmp last l ↔ x ∈ last :: l := by
  intro l
  induction l with
  | nil => intro last; exact Iff.rfl
  | cons b l ih =>
    intro last
    rw [smartlistUniq.go]
    split
    next h =>
      -- the element that goes is the one before it
      rw [ih, ← hcmp last b h]
      simp
    next => rw [List.mem_cons, ih, ← List.mem_cons]

/-- Where elements that compare equal are equal, no element is lost. -/
theorem mem_smartlistUniq (hcmp : ∀ a b, cmp a b = 0 → a = b) {l : List α} {x : α} :
    x ∈ smartlistUniq cmp l ↔ x ∈ l := by
  cases l with
  | nil => exact Iff.rfl
  | cons a l => exact mem_uniq_go hcmp

theorem uniq_go_sorted (hlt : ∀ a b c, cmp a b < 0 → cmp b c < 0 → cmp a c < 0) :
    ∀ {l : List α} {last : α}, (last :: l).Pairwise (fun a b => cmp a b ≤ 0) →
      (last :: smartlistUniq.go cmp last l).Pairwise fun a b => cmp a b < 0 := by
  intro l
  induction l with
  | nil => intro last _; exact List.pairwise_singleton _ last
  | cons b l ih =>
    intro last hs
    obtain ⟨hlast, hs'⟩ := List.pairwise_cons.mp hs
    rw [smartlistUniq.go]
    split
    next =>
      exact ih (List.pairwise_cons.mpr
        ⟨fun x hx => hlast x (List.mem_cons_of_mem b hx), (List.pairwise_cons.mp hs').2⟩)
    next hne =>
      have hb : cmp last b < 0 := lt_of_le_of_ne (hlast b List.mem_cons_self) hne
      have hrest := ih hs'
      refine List.pairwise_cons.mpr ⟨fun x hx => ?_, hrest⟩
      rcases List.mem_cons.mp hx with rfl | hx
      · exact hb
      · exact hlt last b x hb ((List.pairwise_cons.mp hrest).1 x hx)

/-- A sorted array is strictly sorted afterwards. -/
theorem smartlistUniq_sorted (hlt : ∀ a b c, cmp a b < 0 → cmp b c < 0 → cmp a c < 0)
    {l : List α} (hs : l.Pairwise fun a b => cmp a b ≤ 0) :
    (smartlistUniq cmp l).Pairwise fun a b => cmp a b < 0 := by
  cases l with
  | nil => exact List.Pairwise.nil
  | cons a l => exact uniq_go_sorted hlt hs

end Uniq

/-- The runs of an array: the first element of each, and its length. -/
def smartlistRuns (eq : α → α → Bool) : List α → List (α × ℕ)
  | [] => []
  | a :: l => go a 1 l
where
  go (cur : α) (count : ℕ) : List α → List (α × ℕ)
    | [] => [(cur, count)]
    | b :: l => if eq cur b then go cur (count + 1) l else (cur, count) :: go b 1 l

/-- `smartlist_get_most_frequent_`: the last of the longest runs, and its length. -/
def smartlistGetMostFrequent (cmp : α → α → ℤ) (sl : List α) : Option (α × ℕ) :=
  (smartlistRuns (fun a b => cmp a b = 0) sl).foldl (fun best run =>
    match best with
    | none => some run
    | some (_, n) => if n ≤ run.2 then some run else best) none

end Dittor.Lib

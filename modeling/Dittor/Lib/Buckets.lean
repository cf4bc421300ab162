import Mathlib

/-!
# Items in numbered rows

A table whose rows are lists, where every item is in the row its number names. The items of the table
are those of `rows.flatten`; changing one row changes only its part of that list (`flatten_set`), so
what is known of the row carries over to the table.
-/

namespace Dittor.Lib

variable {α : Type*}

/-- Every item is in the row its number names. -/
def Placed (num : α → ℕ) (rows : List (List α)) : Prop :=
  ∀ (b : ℕ) (row : List α), rows[b]? = some row → ∀ x ∈ row, num x = b

section Rows

variable {num : α → ℕ} {rows : List (List α)} {b : ℕ} {row row' : List α}

/-- A row and what is around it. -/
theorem flatten_split (h : rows[b]? = some row) :
    rows.flatten = (rows.take b).flatten ++ (row ++ (rows.drop (b + 1)).flatten) := by
  obtain ⟨hlt, hget⟩ := List.getElem?_eq_some_iff.mp h
  conv_lhs => rw [← List.take_append_drop b rows]
  rw [List.drop_eq_getElem_cons hlt, hget, List.flatten_append, List.flatten_cons]

theorem flatten_set (h : rows[b]? = some row) :
    (rows.set b row').flatten = (rows.take b).flatten ++ (row' ++ (rows.drop (b + 1)).flatten) := by
  obtain ⟨hlt, -⟩ := List.getElem?_eq_some_iff.mp h
  have hset : (rows.set b row')[b]? = some row' := List.getElem?_set_self hlt
  rw [flatten_split hset, List.take_set, List.set_eq_of_length_le (by rw [List.length_take]; omega),
    List.drop_set_of_lt (Nat.lt_succ_self b)]

/-- One more item in a row is one more in the table. -/
theorem flatten_set_perm_cons {x : α} (h : rows[b]? = some row) (hrow : row'.Perm (x :: row)) :
    (rows.set b row').flatten.Perm (x :: rows.flatten) := by
  rw [flatten_set h, flatten_split h]
  refine List.Perm.trans ?_ List.perm_middle
  exact List.Perm.append_left _ (hrow.append_right _)

/-- One item less in a row is one less in the table. -/
theorem flatten_perm_cons_set {x : α} (h : rows[b]? = some row) (hrow : row.Perm (x :: row')) :
    rows.flatten.Perm (x :: (rows.set b row').flatten) := by
  rw [flatten_set h, flatten_split h]
  refine List.Perm.trans ?_ List.perm_middle
  exact List.Perm.append_left _ (hrow.append_right _)

/-- The items of the table with a number are those of its row. -/
theorem Placed.mem_row (hplaced : Placed num rows) (h : rows[b]? = some row) {x : α} :
    x ∈ row ↔ x ∈ rows.flatten ∧ num x = b := by
  constructor
  · intro hx
    exact ⟨List.mem_flatten.mpr ⟨row, List.mem_of_getElem? h, hx⟩, hplaced b row h x hx⟩
  · rintro ⟨hx, hnum⟩
    obtain ⟨other, hother, hmem⟩ := List.mem_flatten.mp hx
    obtain ⟨i, hi⟩ := List.mem_iff_getElem?.mp hother
    have hib : i = b := (hplaced i other hi x hmem).symm.trans hnum
    rw [hib, h] at hi
    cases hi
    exact hmem

theorem Placed.set (hplaced : Placed num rows) (hrow : ∀ x ∈ row', num x = b) :
    Placed num (rows.set b row') := by
  intro i other hi x hx
  by_cases hib : i = b
  · subst hib
    have hlt : i < rows.length := by
      have := (List.getElem?_eq_some_iff.mp hi).1
      rwa [List.length_set] at this
    rw [List.getElem?_set_self hlt] at hi
    cases hi
    exact hrow x hx
  · rw [List.getElem?_set_ne (fun h => hib h.symm)] at hi
    exact hplaced i other hi x hx

theorem placed_replicate (num : α → ℕ) (n : ℕ) : Placed num (List.replicate n []) := by
  intro b row h x hx
  have hrow : row = [] := List.eq_of_mem_replicate (List.mem_of_getElem? h)
  rw [hrow] at hx
  cases hx

end Rows

/-- The first item that matches, when no two do. -/
theorem find?_eq_some_iff_of_unique {p : α → Bool} {l : List α}
    (hunique : ∀ x ∈ l, ∀ y ∈ l, p x = true → p y = true → x = y) {x : α} :
    l.find? p = some x ↔ x ∈ l ∧ p x = true := by
  constructor
  · intro h
    exact ⟨List.mem_of_find?_eq_some h, List.find?_some h⟩
  · rintro ⟨hx, hp⟩
    cases hfind : l.find? p with
    | none => exact absurd hp (List.find?_eq_none.mp hfind x hx)
    | some y =>
      rw [hunique y (List.mem_of_find?_eq_some hfind) x hx (List.find?_some hfind) hp]

/-- Around the first item that matches. -/
theorem exists_split_of_findIdx? {p : α → Bool} {l : List α} {i : ℕ}
    (h : l.findIdx? p = some i) :
    ∃ x before after, l = before ++ x :: after ∧ before.length = i ∧ p x = true := by
  obtain ⟨hlt, hp, -⟩ := List.findIdx?_eq_some_iff_getElem.mp h
  refine ⟨l[i], l.take i, l.drop (i + 1), ?_, ?_, hp⟩
  · rw [← List.drop_eq_getElem_cons hlt, List.take_append_drop]
  · rw [List.length_take]
    omega

theorem modify_length_append (f : α → α) (x : α) (after : List α) :
    ∀ before : List α, (before ++ x :: after).modify before.length f = before ++ f x :: after
  | [] => rfl
  | y :: before => by
    show y :: (before ++ x :: after).modify before.length f = y :: (before ++ f x :: after)
    rw [modify_length_append f x after before]

theorem set_length_append (x y : α) (before after : List α) :
    (before ++ x :: after).set before.length y = before ++ y :: after := by
  rw [List.set_append_right _ _ (le_refl _), Nat.sub_self]
  rfl

/-- A sum over a list one item of which is replaced. -/
theorem sum_map_set (f : α → ℕ) (y : α) :
    ∀ {l : List α} {i : ℕ} {x : α}, l[i]? = some x →
      ((l.set i y).map f).sum + f x = (l.map f).sum + f y
  | [], _, _, h => absurd h (by simp)
  | z :: l, 0, x, h => by
    obtain rfl : z = x := Option.some.inj h
    simp only [List.set_cons_zero, List.map_cons, List.sum_cons]
    omega
  | z :: l, i + 1, x, h => by
    have ih := sum_map_set f y (l := l) (i := i) h
    simp only [List.set_cons_succ, List.map_cons, List.sum_cons]
    omega

end Dittor.Lib

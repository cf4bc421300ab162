import Mathlib

/-!
# Tilings of an interval

A list of items that cover the numbers from `first` to `last` each, one behind the other and
without a gap. `tiles_append` cuts a tiling at a boundary, and `Tiles.span` finds the item that
holds a number by skipping those that end before it, as a loop over the list does.

Such a list stands for a function of the numbers: `Shows` says that the items have its values. A
number is in some item (`Tiles.exists_mem`), so the items say all of it, and a change to the items
between two boundaries is one of the values there (`Shows.change`).
-/

namespace Dittor.Lib

variable {α : Type} (first last : α → ℕ)

/-- The items cover the numbers from `lo` on and before `hi`, in order and without a gap. -/
def Tiles : ℕ → ℕ → List α → Prop
  | lo, hi, [] => lo = hi
  | lo, hi, a :: l => first a = lo ∧ lo ≤ last a ∧ Tiles (last a + 1) hi l

variable {first last} {lo hi : ℕ} {l m : List α}

theorem Tiles.le (h : Tiles first last lo hi l) : lo ≤ hi := by
  induction l generalizing lo with
  | nil => exact le_of_eq h
  | cons a l ih =>
    obtain ⟨-, hle, htail⟩ := h
    exact le_trans (Nat.le_succ_of_le hle) (ih htail)

theorem tiles_append :
    Tiles first last lo hi (l ++ m) ↔
      ∃ mid, Tiles first last lo mid l ∧ Tiles first last mid hi m := by
  induction l generalizing lo with
  | nil =>
    constructor
    · exact fun h => ⟨lo, rfl, h⟩
    · rintro ⟨mid, rfl, h⟩
      exact h
  | cons a l ih =>
    constructor
    · rintro ⟨hfirst, hle, htail⟩
      obtain ⟨mid, hl, hm⟩ := ih.mp htail
      exact ⟨mid, ⟨hfirst, hle, hl⟩, hm⟩
    · rintro ⟨mid, ⟨hfirst, hle, hl⟩, hm⟩
      exact ⟨hfirst, hle, ih.mpr ⟨mid, hl, hm⟩⟩

/-- Items end before the end. -/
theorem Tiles.last_lt (h : Tiles first last lo hi l) {a : α} (ha : a ∈ l) : last a < hi := by
  induction l generalizing lo with
  | nil => exact absurd ha List.not_mem_nil
  | cons b l ih =>
    obtain ⟨-, -, htail⟩ := h
    rcases List.mem_cons.mp ha with rfl | ha
    · exact htail.le
    · exact ih htail ha

/-- No item is empty. -/
theorem Tiles.first_le (h : Tiles first last lo hi l) {a : α} (ha : a ∈ l) :
    lo ≤ first a ∧ first a ≤ last a := by
  induction l generalizing lo with
  | nil => exact absurd ha List.not_mem_nil
  | cons b l ih =>
    obtain ⟨hfirst, hle, htail⟩ := h
    rcases List.mem_cons.mp ha with rfl | ha
    · exact ⟨hfirst.ge, hfirst.trans_le hle⟩
    · exact ⟨le_trans (Nat.le_succ_of_le hle) (ih htail ha).1, (ih htail ha).2⟩

theorem Tiles.map (h : Tiles first last lo hi l) {f : α → α} (hfirst : ∀ a, first (f a) = first a)
    (hlast : ∀ a, last (f a) = last a) : Tiles first last lo hi (l.map f) := by
  induction l generalizing lo with
  | nil => exact h
  | cons a l ih =>
    obtain ⟨hstart, hle, htail⟩ := h
    refine ⟨(hfirst a).trans hstart, ?_, ?_⟩
    · rw [hlast]
      exact hle
    · rw [hlast]
      exact ih htail

/-- Skipping the items that end before `p` leads to the one that holds `p`. -/
theorem Tiles.span (h : Tiles first last lo hi l) {p : ℕ} (hlo : lo ≤ p) (hhi : p < hi) :
    ∃ a rest, l.dropWhile (fun b => last b < p) = a :: rest ∧ first a ≤ p ∧ p ≤ last a
      ∧ Tiles first last lo (first a) (l.takeWhile fun b => last b < p)
      ∧ Tiles first last (last a + 1) hi rest := by
  induction l generalizing lo with
  | nil =>
    have heq : lo = hi := h
    omega
  | cons a l ih =>
    obtain ⟨hstart, hle, htail⟩ := h
    by_cases hbefore : last a < p
    · obtain ⟨b, rest, hdrop, hfirst, hlast, hfront, hrest⟩ := ih htail hbefore
      refine ⟨b, rest, ?_, hfirst, hlast, ?_, hrest⟩
      · rw [List.dropWhile_cons_of_pos (by simpa using hbefore), hdrop]
      · rw [List.takeWhile_cons_of_pos (by simpa using hbefore)]
        exact ⟨hstart, hle, hfront⟩
    · refine ⟨a, l, ?_, hstart.trans_le hlo, not_lt.mp hbefore, ?_, htail⟩
      · rw [List.dropWhile_cons_of_neg (by simpa using hbefore)]
      · rw [List.takeWhile_cons_of_neg (by simpa using hbefore)]
        exact hstart.symm

/-- Skipping the items that end before a boundary stops there. -/
theorem Tiles.span_boundary {mid : ℕ} (hl : Tiles first last lo mid l)
    (hm : Tiles first last mid hi m) :
    (l ++ m).takeWhile (fun b => last b < mid) = l
      ∧ (l ++ m).dropWhile (fun b => last b < mid) = m := by
  have hall : ∀ b ∈ l, decide (last b < mid) = true := fun b hb => decide_eq_true (hl.last_lt hb)
  rw [List.takeWhile_append_of_pos hall, List.dropWhile_append_of_pos hall]
  cases m with
  | nil => simp
  | cons a m =>
    have hstop : ¬ last a < mid := not_lt.mpr hm.2.1
    rw [List.takeWhile_cons_of_neg (by simpa using hstop),
      List.dropWhile_cons_of_neg (by simpa using hstop), List.append_nil]
    exact ⟨rfl, rfl⟩

/-! ## The function that a tiling stands for -/

section Shows

variable {β : Type} {value : α → β} {v : ℕ → β}

/-- Each number is in an item. -/
theorem Tiles.exists_mem (h : Tiles first last lo hi l) {p : ℕ} (hlo : lo ≤ p) (hhi : p < hi) :
    ∃ a ∈ l, first a ≤ p ∧ p ≤ last a := by
  obtain ⟨a, rest, hdrop, hfirst, hlast, -, -⟩ := h.span hlo hhi
  have hmem : a ∈ l.dropWhile fun b => last b < p := by
    rw [hdrop]
    exact List.mem_cons_self
  exact ⟨a, (List.dropWhile_suffix _).subset hmem, hfirst, hlast⟩

variable (first last value v) in
/-- The value of an item is that of each number in it. -/
def Shows (l : List α) : Prop :=
  ∀ a ∈ l, ∀ p, first a ≤ p → p ≤ last a → value a = v p

theorem shows_append :
    Shows first last value v (l ++ m) ↔ Shows first last value v l ∧ Shows first last value v m :=
  List.forall_mem_append

theorem shows_cons {a : α} :
    Shows first last value v (a :: l) ↔
      (∀ p, first a ≤ p → p ≤ last a → value a = v p) ∧ Shows first last value v l :=
  List.forall_mem_cons

/-- Only the numbers that are tiled matter. -/
theorem Shows.congr {w : ℕ → β} (h : Shows first last value v l) (ht : Tiles first last lo hi l)
    (hsame : ∀ p, lo ≤ p → p < hi → w p = v p) : Shows first last value w l := by
  intro a ha p hfirst hlast
  have hbefore := (ht.first_le ha).1
  have hbehind := ht.last_lt ha
  rw [h a ha p hfirst hlast, hsame p (by omega) (by omega)]

/-- All values are changed in the same way. -/
theorem Shows.map (h : Shows first last value v l) {f : α → α} {g : β → β}
    (hfirst : ∀ a, first (f a) = first a) (hlast : ∀ a, last (f a) = last a)
    (hvalue : ∀ a ∈ l, value (f a) = g (value a)) :
    Shows first last value (fun p => g (v p)) (l.map f) := by
  intro b hb p hlo hhi
  obtain ⟨a, ha, rfl⟩ := List.mem_map.mp hb
  rw [hfirst] at hlo
  rw [hlast] at hhi
  rw [hvalue a ha, h a ha p hlo hhi]

/-- The values between two boundaries are changed. -/
theorem Shows.change {a b : ℕ} {front mid post : List α} (hfront : Tiles first last lo a front)
    (hmid : Tiles first last a b mid) (hpost : Tiles first last b hi post)
    (h : Shows first last value v (front ++ (mid ++ post))) {f : α → α} {g : β → β}
    (hfirst : ∀ x, first (f x) = first x) (hlast : ∀ x, last (f x) = last x)
    (hvalue : ∀ x ∈ mid, value (f x) = g (value x)) :
    Shows first last value (fun p => if a ≤ p ∧ p < b then g (v p) else v p)
      (front ++ (mid.map f ++ post)) := by
  obtain ⟨hf, hrest⟩ := shows_append.mp h
  obtain ⟨hm, hp⟩ := shows_append.mp hrest
  refine shows_append.mpr ⟨?_, shows_append.mpr ⟨?_, ?_⟩⟩
  · exact hf.congr hfront fun p _ hlt => if_neg fun hin => by omega
  · have hmap := hm.map hfirst hlast hvalue
    exact hmap.congr (hmid.map hfirst hlast) fun p hle hlt => if_pos ⟨hle, hlt⟩
  · exact hp.congr hpost fun p hle _ => if_neg fun hin => by omega

end Shows

end Dittor.Lib

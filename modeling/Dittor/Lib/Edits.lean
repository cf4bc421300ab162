import Mathlib.Data.List.Basic
import Mathlib.Tactic.Common

/-!
# Edit scripts from marks

Two documents whose lines are marked, those of the first that go and those of
the second that are new, so that the unmarked lines are the same in both. Read
from the end backwards the marks are a list of edits (`backEdits`), each saying
how many lines stay before it, how many go and which come; applied from the end
backwards to the first document the edits give the second
(`applyEdits_backEdits`). Nothing depends on how the marks were chosen.
-/

namespace Dittor.Lib

variable {α : Type*}

/-- After `keep` lines, `deleted` lines go and `added` come in their place. -/
structure Edit (α : Type*) where
  keep : ℕ
  deleted : ℕ
  added : List α
deriving DecidableEq

/-- The lines without a mark. -/
def unmarked (l : List (Bool × α)) : List α := (l.filter fun x => !x.1).map Prod.snd

/-- Mark all lines alike. -/
def markAll (mark : Bool) (l : List α) : List (Bool × α) := l.map fun x => (mark, x)

/-- Edits from the end: `j` lines of `source` are not copied yet, `acc` stands
behind them. -/
def applyEdits (source : List α) : ℕ → List (Edit α) → List α → List α
  | j, [], acc => source.take j ++ acc
  | j, e :: es, acc =>
    applyEdits source e.keep es (e.added ++ ((source.take j).drop (e.keep + e.deleted) ++ acc))

/-- The edits do not overlap and each does something. -/
def Fits : ℕ → List (Edit α) → Prop
  | _, [] => True
  | j, e :: es => e.keep + e.deleted ≤ j ∧ (e.deleted ≠ 0 ∨ e.added ≠ []) ∧ Fits e.keep es

theorem length_takeWhile_add_dropWhile (p : α → Bool) (l : List α) :
    (l.takeWhile p).length + (l.dropWhile p).length = l.length := by
  rw [← List.length_append, List.takeWhile_append_dropWhile]

/-- The edits of two marked documents, both given from their last line. -/
def backEdits (r₁ r₂ : List (Bool × α)) : List (Edit α) :=
  if _h : r₁ = [] ∧ r₂ = [] then []
  else if _h' : r₁.takeWhile Prod.fst = [] ∧ r₂.takeWhile Prod.fst = [] then
    -- no mark on either side, so one line of each is passed over
    backEdits r₁.tail r₂.tail
  else
    { keep := (r₁.dropWhile Prod.fst).length
      deleted := (r₁.takeWhile Prod.fst).length
      added := ((r₂.takeWhile Prod.fst).map Prod.snd).reverse }
    :: backEdits (r₁.dropWhile Prod.fst) (r₂.dropWhile Prod.fst)
termination_by r₁.length + r₂.length
decreasing_by
  · have h₁ := List.length_tail (l := r₁)
    have h₂ := List.length_tail (l := r₂)
    have hne : r₁.length + r₂.length ≠ 0 := by
      intro h0
      exact _h ⟨List.length_eq_zero_iff.mp (by omega), List.length_eq_zero_iff.mp (by omega)⟩
    omega
  · have h₁ := length_takeWhile_add_dropWhile Prod.fst r₁
    have h₂ := length_takeWhile_add_dropWhile Prod.fst r₂
    have hne : (r₁.takeWhile Prod.fst).length + (r₂.takeWhile Prod.fst).length ≠ 0 := by
      intro h0
      exact _h' ⟨List.length_eq_zero_iff.mp (by omega), List.length_eq_zero_iff.mp (by omega)⟩
    omega

/-! ## Marks -/

@[simp] theorem unmarked_nil : unmarked ([] : List (Bool × α)) = [] := rfl

@[simp] theorem unmarked_append (a b : List (Bool × α)) :
    unmarked (a ++ b) = unmarked a ++ unmarked b := by
  simp [unmarked]

@[simp] theorem unmarked_cons_false (x : α) (l : List (Bool × α)) :
    unmarked ((false, x) :: l) = x :: unmarked l := by
  simp [unmarked]

@[simp] theorem unmarked_cons_true (x : α) (l : List (Bool × α)) :
    unmarked ((true, x) :: l) = unmarked l := by
  simp [unmarked]

@[simp] theorem unmarked_markAll_true (l : List α) : unmarked (markAll true l) = [] := by
  simp [unmarked, markAll]

@[simp] theorem unmarked_markAll_false (l : List α) : unmarked (markAll false l) = l := by
  induction l with
  | nil => rfl
  | cons x l ih =>
    show unmarked ((false, x) :: markAll false l) = x :: l
    rw [unmarked_cons_false, ih]

@[simp] theorem map_snd_markAll (mark : Bool) (l : List α) :
    (markAll mark l).map Prod.snd = l := by
  simp [markAll, Function.comp_def]

theorem unmarked_reverse (l : List (Bool × α)) : unmarked l.reverse = (unmarked l).reverse := by
  simp [unmarked, List.filter_reverse, List.map_reverse]

theorem unmarked_dropWhile (l : List (Bool × α)) :
    unmarked (l.dropWhile Prod.fst) = unmarked l := by
  induction l with
  | nil => rfl
  | cons x l ih =>
    obtain ⟨mark, a⟩ := x
    cases mark with
    | false => rfl
    | true => simpa using ih

/-- Where no mark stands in front, an unmarked line does, if any line does. -/
theorem cases_takeWhile_nil {l : List (Bool × α)} (h : l.takeWhile Prod.fst = []) :
    l = [] ∨ ∃ x t, l = (false, x) :: t := by
  cases l with
  | nil => exact .inl rfl
  | cons y t =>
    obtain ⟨mark, x⟩ := y
    cases mark with
    | false => exact .inr ⟨x, t, rfl⟩
    | true => simp at h

/-! ## The script restores the second document -/

variable {source : List α}

/-- Lines of the source are marked from line `n` down. -/
def Covers (source : List α) (r₁ : List (Bool × α)) : Prop :=
  r₁.length ≤ source.length ∧ r₁.map Prod.snd = (source.take r₁.length).reverse

theorem Covers.dropWhile {r₁ : List (Bool × α)} (h : Covers source r₁) :
    Covers source (r₁.dropWhile Prod.fst) := by
  have hlen := length_takeWhile_add_dropWhile Prod.fst r₁
  refine ⟨by have := h.1; omega, ?_⟩
  have hcut : (r₁.takeWhile Prod.fst).map Prod.snd ++ (r₁.dropWhile Prod.fst).map Prod.snd =
      (source.take r₁.length).reverse := by
    rw [← List.map_append, List.takeWhile_append_dropWhile, h.2]
  have hdrop := congrArg (List.drop (r₁.takeWhile Prod.fst).length) hcut
  rw [List.drop_left' (by simp), List.drop_reverse, List.take_take, List.length_take] at hdrop
  rw [hdrop]
  congr 2
  have := h.1
  omega

theorem Covers.tail {x : Bool × α} {t : List (Bool × α)} (h : Covers source (x :: t)) :
    Covers source t ∧ (source.take (t.length + 1)).drop t.length = [x.2] := by
  have hlen : t.length < source.length := by
    have := h.1
    rw [List.length_cons] at this
    omega
  have hmap := h.2
  rw [List.length_cons, List.take_add_one, List.getElem?_eq_getElem hlen, Option.toList_some,
    List.reverse_append, List.map_cons] at hmap
  obtain ⟨hx, ht⟩ := List.cons.inj hmap
  refine ⟨⟨by omega, ht⟩, ?_⟩
  rw [List.take_add_one, List.getElem?_eq_getElem hlen, Option.toList_some,
    List.drop_left' (by simp; omega), hx]

theorem drop_take_split {a b c : ℕ} (hab : a ≤ b) (hbc : b ≤ c) :
    (source.take c).drop a = (source.take b).drop a ++ (source.take c).drop b := by
  have hcut : source.take c = source.take b ++ (source.take c).drop b := by
    conv_lhs => rw [← List.take_append_drop b (source.take c), List.take_take,
      Nat.min_eq_left hbc]
  by_cases hb : b ≤ source.length
  · conv_lhs => rw [hcut]
    rw [List.drop_append_of_le_length (by simp; omega)]
  · rw [List.take_of_length_le (by omega), List.take_of_length_le (by omega),
      List.drop_of_length_le (by omega : source.length ≤ b), List.append_nil]

/-- The edits of the marks, on the lines of the source up to `j` of which those from
`r₁.length` on are unchanged. -/
theorem applyEdits_backEdits : ∀ (r₁ r₂ : List (Bool × α)) {j : ℕ} (acc : List α),
    Covers source r₁ → r₁.length ≤ j → unmarked r₁ = unmarked r₂ →
    applyEdits source j (backEdits r₁ r₂) acc =
      (r₂.map Prod.snd).reverse ++ ((source.take j).drop r₁.length ++ acc) := by
  intro r₁ r₂
  fun_induction backEdits r₁ r₂ with
  | case1 r₁ r₂ h =>
    intro j acc hcov hj hun
    obtain ⟨rfl, rfl⟩ := h
    simp [applyEdits]
  | case2 r₁ r₂ h h' ih =>
    intro j acc hcov hj hun
    -- the unmarked lines agree, so neither side is empty and the two heads are one line
    rcases cases_takeWhile_nil h'.1 with rfl | ⟨x, t, rfl⟩
    · rcases cases_takeWhile_nil h'.2 with rfl | ⟨y, u, rfl⟩
      · exact absurd ⟨rfl, rfl⟩ h
      · simp at hun
    · rcases cases_takeWhile_nil h'.2 with rfl | ⟨y, u, rfl⟩
      · simp at hun
      · simp only [unmarked_cons_false, List.cons.injEq] at hun
        obtain ⟨rfl, hun⟩ := hun
        have hj' : t.length + 1 ≤ j := hj
        obtain ⟨hcov', hlast⟩ := hcov.tail
        simp only [List.tail_cons] at ih ⊢
        rw [ih acc hcov' (by omega) hun, drop_take_split (by omega) hj', hlast]
        simp
  | case3 r₁ r₂ h h' ih =>
    intro j acc hcov hj hun
    have h₁ := length_takeWhile_add_dropWhile Prod.fst r₁
    have hun' : unmarked (r₁.dropWhile Prod.fst) = unmarked (r₂.dropWhile Prod.fst) := by
      rw [unmarked_dropWhile, unmarked_dropWhile, hun]
    have hcut : r₂.map Prod.snd =
        (r₂.takeWhile Prod.fst).map Prod.snd ++ (r₂.dropWhile Prod.fst).map Prod.snd := by
      rw [← List.map_append, List.takeWhile_append_dropWhile]
    have hzero : (source.take (r₁.dropWhile Prod.fst).length).drop
        (r₁.dropWhile Prod.fst).length = [] :=
      List.drop_of_length_le (by rw [List.length_take]; omega)
    rw [applyEdits, ih _ hcov.dropWhile (Nat.le_refl _) hun', hzero, List.nil_append, hcut,
      List.reverse_append, show (r₁.dropWhile Prod.fst).length + (r₁.takeWhile Prod.fst).length =
        r₁.length by omega]
    simp only [List.append_assoc]

theorem fits_backEdits (r₁ r₂ : List (Bool × α)) {j : ℕ} (hj : r₁.length ≤ j) :
    Fits j (backEdits r₁ r₂) := by
  fun_induction backEdits r₁ r₂ generalizing j with
  | case1 r₁ r₂ h => trivial
  | case2 r₁ r₂ h h' ih =>
    exact ih (by have := List.length_tail (l := r₁); omega)
  | case3 r₁ r₂ h h' ih =>
    have h₁ := length_takeWhile_add_dropWhile Prod.fst r₁
    refine ⟨by
      show (r₁.dropWhile Prod.fst).length + (r₁.takeWhile Prod.fst).length ≤ j
      omega, ?_, ih (Nat.le_refl _)⟩
    by_contra hnone
    simp only [not_or, not_not, List.length_eq_zero_iff, List.reverse_eq_nil_iff,
      List.map_eq_nil_iff] at hnone
    exact h' hnone

theorem Fits.mem {e : Edit α} : ∀ {edits : List (Edit α)} {j : ℕ}, Fits j edits → e ∈ edits →
    e.keep + e.deleted ≤ j ∧ (e.deleted ≠ 0 ∨ e.added ≠ [])
  | f :: edits, j, h, he => by
    rcases List.mem_cons.mp he with rfl | he
    · exact ⟨h.1, h.2.1⟩
    · obtain ⟨hle, hdo⟩ := Fits.mem h.2.2 he
      have hj := h.1
      exact ⟨by omega, hdo⟩

/-- Only lines of the second document are added. -/
theorem mem_added_backEdits {r₁ r₂ : List (Bool × α)} {e : Edit α} (he : e ∈ backEdits r₁ r₂)
    {x : α} (hx : x ∈ e.added) : x ∈ r₂.map Prod.snd := by
  fun_induction backEdits r₁ r₂ with
  | case1 r₁ r₂ h => cases he
  | case2 r₁ r₂ h h' ih =>
    have hmem := ih he
    rw [List.map_tail] at hmem
    exact List.mem_of_mem_tail hmem
  | case3 r₁ r₂ h h' ih =>
    rcases List.mem_cons.mp he with rfl | he
    · exact List.map_subset _ (List.takeWhile_subset _) (List.mem_reverse.mp hx)
    · exact List.map_subset _ (List.dropWhile_subset _) (ih he)

end Dittor.Lib

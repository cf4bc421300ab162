import Mathlib

/-!
# Words between separators

A text cut at every separator, with the white space at both ends of each piece stripped and empty
pieces left out. What comes out are words (`isWord_of_mem`), and words that are joined by a separator
come out again (`wordsBy_intercalate`).
-/

namespace Dittor.Lib

variable {α : Type*} (space sep : α → Bool)

/-- The first piece of a text, stripped; white space in front of it is skipped before its end is
looked for. -/
def firstPiece (s : List α) : List α :=
  ((s.dropWhile space).takeWhile fun b => !sep b).rdropWhile space

/-- The stripped pieces of a text. -/
def wordsBy (s : List α) : List (List α) :=
  let rest := match _h : (s.dropWhile space).dropWhile fun b => !sep b with
    | [] => []
    | _ :: rest => wordsBy (rest.dropWhile sep)
  if firstPiece space sep s = [] then rest else firstPiece space sep s :: rest
termination_by s.length
decreasing_by
  have h1 := (List.dropWhile_suffix (l := rest) sep).length_le
  have h2 := (List.dropWhile_suffix (l := s.dropWhile space) fun b => !sep b).length_le
  have h3 := (List.dropWhile_suffix (l := s) space).length_le
  rw [_h, List.length_cons] at h2
  omega

/-- What a piece is when it is stripped. -/
structure IsWord (w : List α) : Prop where
  nonempty : w ≠ []
  sep : ∀ b ∈ w, sep b = false
  first : ∀ b ∈ w.head?, space b = false
  last : ∀ b ∈ w.getLast?, space b = false

variable {space sep} {s w : List α}

theorem wordsBy_last (h : ((s.dropWhile space).dropWhile fun b => !sep b) = []) :
    wordsBy space sep s = if firstPiece space sep s = [] then [] else [firstPiece space sep s] := by
  rw [wordsBy]
  split
  · split
    · rfl
    · rename_i hcut
      rw [h] at hcut
      cases hcut
  · split
    · rfl
    · rename_i hcut
      rw [h] at hcut
      cases hcut

theorem wordsBy_cut {b : α} {rest : List α}
    (h : ((s.dropWhile space).dropWhile fun b => !sep b) = b :: rest) :
    wordsBy space sep s = if firstPiece space sep s = []
      then wordsBy space sep (rest.dropWhile sep)
      else firstPiece space sep s :: wordsBy space sep (rest.dropWhile sep) := by
  rw [wordsBy]
  split
  · split
    · rename_i hnil
      rw [h] at hnil
      cases hnil
    · rename_i hcut
      rw [h] at hcut
      cases hcut
      rfl
  · split
    · rename_i hnil
      rw [h] at hnil
      cases hnil
    · rename_i hcut
      rw [h] at hcut
      cases hcut
      rfl

theorem isWord_firstPiece (h : firstPiece space sep s ≠ []) :
    IsWord space sep (firstPiece space sep s) := by
  have hfront : firstPiece space sep s <+: (s.dropWhile space).takeWhile fun b => !sep b :=
    List.rdropWhile_prefix space _
  refine ⟨h, fun b hb => ?_, fun b hb => ?_, fun b hb => ?_⟩
  · have hmem := List.mem_takeWhile_imp (hfront.subset hb)
    simpa using hmem
  · obtain ⟨back, hback⟩ := hfront.trans (List.takeWhile_prefix _)
    have hhead := List.head?_dropWhile_not space s
    rw [← hback, List.head?_append, Option.mem_def.mp hb] at hhead
    simpa using hhead
  · rw [List.getLast?_eq_some_getLast h, Option.mem_some_iff] at hb
    rw [← hb]
    exact Bool.not_eq_true _ ▸ List.rdropWhile_last_not space _ h

/-- **The pieces are words.** -/
theorem isWord_of_mem (h : w ∈ wordsBy space sep s) : IsWord space sep w := by
  induction hn : s.length using Nat.strong_induction_on generalizing s with
  | _ n ih =>
    subst hn
    cases hcut : (s.dropWhile space).dropWhile fun b => !sep b with
    | nil =>
      rw [wordsBy_last hcut] at h
      split at h
      · cases h
      · rename_i hne
        rw [List.mem_singleton.mp h]
        exact isWord_firstPiece hne
    | cons b rest =>
      have h1 := (List.dropWhile_suffix (l := rest) sep).length_le
      have h2 := (List.dropWhile_suffix (l := s.dropWhile space) fun b => !sep b).length_le
      have h3 := (List.dropWhile_suffix (l := s) space).length_le
      rw [hcut, List.length_cons] at h2
      rw [wordsBy_cut hcut] at h
      split at h
      · exact ih _ (by omega) h rfl
      · rename_i hne
        rcases List.mem_cons.mp h with rfl | h
        · exact isWord_firstPiece hne
        · exact ih _ (by omega) h rfl

/-- A word is stripped already, and ends where a separator or nothing follows. -/
theorem IsWord.firstPiece_append (h : IsWord space sep w) {rest : List α}
    (hrest : ∀ b ∈ rest.head?, sep b = true) : firstPiece space sep (w ++ rest) = w
      ∧ ((w ++ rest).dropWhile space).dropWhile (fun b => !sep b) = rest := by
  obtain ⟨b, back, rfl⟩ := List.exists_cons_of_ne_nil h.nonempty
  have hfirst : space b = false := h.first b rfl
  have hall : ∀ x ∈ b :: back, (!sep x) = true := fun x hx => by
    rw [h.sep x hx]
    rfl
  have hstart : (b :: back ++ rest).dropWhile space = b :: back ++ rest := by
    rw [List.cons_append, List.dropWhile_cons_of_neg (by simp [hfirst])]
  have hstop : rest.takeWhile (fun b => !sep b) = []
      ∧ rest.dropWhile (fun b => !sep b) = rest := by
    cases rest with
    | nil => exact ⟨rfl, rfl⟩
    | cons c rest =>
      have hc := hrest c rfl
      exact ⟨List.takeWhile_cons_of_neg (by simp [hc]), List.dropWhile_cons_of_neg (by simp [hc])⟩
  unfold firstPiece
  rw [hstart, List.takeWhile_append_of_pos hall, List.dropWhile_append_of_pos hall, hstop.1,
    hstop.2, List.append_nil]
  refine ⟨List.rdropWhile_eq_self_iff.mpr fun hne => ?_, rfl⟩
  rw [h.last _ (List.getLast?_eq_some_getLast hne)]
  exact Bool.false_ne_true

/-- **Joined words come out again.** -/
theorem wordsBy_intercalate {c : α} (hc : sep c = true) : ∀ {ws : List (List α)},
    (∀ w ∈ ws, IsWord space sep w) → wordsBy space sep ([c].intercalate ws) = ws
  | [], _ => by
    rw [List.intercalate_nil, wordsBy_last rfl]
    rfl
  | [w], h => by
    have hw := h w (List.mem_singleton_self w)
    obtain ⟨hpiece, hrest⟩ := hw.firstPiece_append (show ∀ b ∈ ([] : List α).head?, sep b = true by simp)
    rw [List.append_nil] at hpiece hrest
    rw [List.intercalate_singleton, wordsBy_last hrest, hpiece, if_neg hw.nonempty]
  | w :: w' :: ws, h => by
    have hw := h w List.mem_cons_self
    have hnext := h w' (List.mem_cons_of_mem _ List.mem_cons_self)
    rw [List.intercalate_cons_cons, List.append_assoc, List.singleton_append]
    have hcut : ∀ b ∈ (c :: [c].intercalate (w' :: ws)).head?, sep b = true := by simpa using hc
    obtain ⟨hpiece, hrest⟩ := hw.firstPiece_append hcut
    -- the next word does not start with a separator
    have hstart : ([c].intercalate (w' :: ws)).dropWhile sep = [c].intercalate (w' :: ws) := by
      obtain ⟨b, back, rfl⟩ := List.exists_cons_of_ne_nil hnext.nonempty
      have hb := hnext.sep b List.mem_cons_self
      cases ws with
      | nil => rw [List.intercalate_singleton, List.dropWhile_cons_of_neg (by simp [hb])]
      | cons w'' ws =>
        rw [List.intercalate_cons_cons, List.append_assoc, List.cons_append,
          List.dropWhile_cons_of_neg (by simp [hb])]
    rw [wordsBy_cut hrest, hpiece, if_neg hw.nonempty, hstart,
      wordsBy_intercalate hc fun x hx => h x (List.mem_cons_of_mem _ hx)]

/-- The first separator cuts a text in one way only. -/
theorem append_cons_inj_left {a : α} {u u' v v' : List α} (hu : a ∉ u) (hu' : a ∉ u')
    (h : u ++ a :: v = u' ++ a :: v') : u = u' ∧ v = v' := by
  rcases List.append_eq_append_iff.mp h with ⟨w, hw, htail⟩ | ⟨w, hw, htail⟩
  · cases w with
    | nil => exact ⟨by simpa using hw.symm, (List.cons.inj htail).2⟩
    | cons b w =>
      refine absurd ?_ hu'
      rw [hw, (List.cons.inj htail).1]
      simp
  · cases w with
    | nil => exact ⟨by simpa using hw, (List.cons.inj htail).2.symm⟩
    | cons b w =>
      refine absurd ?_ hu
      rw [hw, (List.cons.inj htail).1]
      simp

end Dittor.Lib

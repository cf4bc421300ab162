import Mathlib

/-!
# Codes without prefixes

A set of words, none of which is empty or the beginning of another, is uniquely decodable: words that
are put one behind the other, without separators or a count, can be told apart again.
-/

namespace Dittor.Lib

open InformationTheory

variable {α : Type*} {S : Set (List α)}

/-- No word is a prefix of another one. -/
def PrefixFree (S : Set (List α)) : Prop := ∀ v ∈ S, ∀ w ∈ S, v <+: w → v = w

/-- Two sequences of words with the same letters begin with the same word. -/
theorem PrefixFree.head_eq (h : PrefixFree S) {v w s t : List α} (hv : v ∈ S) (hw : w ∈ S)
    (heq : v ++ s = w ++ t) : v = w := by
  have hv' : v <+: w ++ t := heq ▸ List.prefix_append v s
  rcases List.prefix_or_prefix_of_prefix hv' (List.prefix_append w t) with hle | hle
  · exact h v hv w hw hle
  · exact (h w hw v hv hle).symm

/-- **Unique decoding**, one word after the other. -/
theorem PrefixFree.uniquelyDecodable (h : PrefixFree S) (hnil : [] ∉ S) : UniquelyDecodable S := by
  intro vs
  induction vs with
  | nil =>
    intro ws _ hws heq
    cases ws with
    | nil => rfl
    | cons w ws =>
      obtain ⟨rfl, -⟩ := List.append_eq_nil_iff.mp heq.symm
      exact absurd (hws [] List.mem_cons_self) hnil
  | cons v vs ih =>
    intro ws hvs hws heq
    cases ws with
    | nil =>
      obtain ⟨rfl, -⟩ := List.append_eq_nil_iff.mp heq
      exact absurd (hvs [] List.mem_cons_self) hnil
    | cons w ws =>
      rw [List.flatten_cons, List.flatten_cons] at heq
      obtain rfl := h.head_eq (hvs v List.mem_cons_self) (hws w List.mem_cons_self) heq
      rw [ih ws (fun u hu => hvs u (List.mem_cons_of_mem v hu))
        (fun u hu => hws u (List.mem_cons_of_mem v hu)) (List.append_cancel_left heq)]

/-- Of two words neither is empty. -/
theorem PrefixFree.nil_notMem (h : PrefixFree S) {v w : List α} (hv : v ∈ S) (hw : w ∈ S)
    (hne : v ≠ w) : [] ∉ S := by
  intro hnil
  have hv' := h [] hnil v hv List.nil_prefix
  have hw' := h [] hnil w hw List.nil_prefix
  exact hne (hv'.symm.trans hw')

end Dittor.Lib

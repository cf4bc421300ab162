import Mathlib
import Dittor.Lib.PrefixCode
import Dittor.Crypto.CA

/-!
# What the hash of a reveal commits to

`hashCommitments` feeds the JSON texts of the commitments and of the two public keys to SHA-256, one
behind the other, with neither a count nor separators. If no text is the beginning of another, the
bytes say where each text ends; the last two are the public keys, so they also say how many
commitments there are (`hash_input_injective`).
-/

namespace Dittor.Crypto

open Dittor.Lib InformationTheory

section Texts

variable {p : ℕ} {G1 G2 GT : Type} [CommGroup G1] [CommGroup G2] [CommGroup GT]
  (S : CryptimeleonSetup p G1 G2 GT)

/-- The texts of all group elements. -/
def jsonTexts : Set (List UInt8) := Set.range S.codec.json1 ∪ Set.range S.codec.json2

/-- The texts of a reveal, in the order of the updates. -/
def revealTexts (r : Reveal G1 G2) : List (List UInt8) :=
  r.commitmentsG1.map S.codec.json1 ++ [S.codec.json1 r.pubKeyG1, S.codec.json2 r.pubKeyG2]

theorem hashInput_eq (r : Reveal G1 G2) : hashInput S r = (revealTexts S r).flatten := by
  rw [hashInput, revealTexts, List.flatten_append, List.flatMap_def, List.append_assoc]
  simp

theorem mem_revealTexts {r : Reveal G1 G2} {w : List UInt8} (h : w ∈ revealTexts S r) :
    w ∈ jsonTexts S := by
  rw [revealTexts, List.mem_append, List.mem_map] at h
  rcases h with ⟨c, -, rfl⟩ | h
  · exact .inl ⟨c, rfl⟩
  · rcases List.mem_cons.mp h with rfl | h
    · exact .inl ⟨r.pubKeyG1, rfl⟩
    · rw [List.mem_singleton.mp h]
      exact .inr ⟨r.pubKeyG2, rfl⟩

variable {S}

/-- There are two elements of G1 at least, so no text is empty. -/
theorem nil_notMem_jsonTexts (h1 : Function.Injective S.codec.json1)
    (hfree : PrefixFree (jsonTexts S)) : [] ∉ jsonTexts S := by
  have hg1 : S.pairing.g1 ≠ 1 := by
    intro hone
    refine S.pairing.nondegenerate ?_
    rw [hone]
    exact S.pairing.apply_one_left _
  exact hfree.nil_notMem (.inl ⟨S.pairing.g1, rfl⟩) (.inl ⟨1, rfl⟩) fun heq => hg1 (h1 heq)

/-- The texts of a reveal are the reveal. -/
theorem revealTexts_injective (h1 : Function.Injective S.codec.json1)
    (h2 : Function.Injective S.codec.json2) : Function.Injective (revealTexts S) := by
  intro ⟨cs, P, Q⟩ ⟨cs', P', Q'⟩ heq
  unfold revealTexts at heq
  dsimp only at heq
  obtain ⟨hcs, hkeys⟩ := List.append_inj' heq rfl
  rw [List.cons.injEq, List.cons.injEq] at hkeys
  obtain ⟨hP, hQ, -⟩ := hkeys
  rw [List.map_injective_iff.mpr h1 hcs, h1 hP, h2 hQ]

end Texts

/-- **The hash commits to the whole reveal**: the bytes that are hashed determine it, whatever the
number of commitments. -/
theorem hash_input_injective {p : ℕ} {G1 G2 GT : Type} [CommGroup G1] [CommGroup G2]
    [CommGroup GT] (S : CryptimeleonSetup p G1 G2 GT) (h1 : Function.Injective S.codec.json1)
    (h2 : Function.Injective S.codec.json2) (hfree : PrefixFree (jsonTexts S))
    {r r' : Reveal G1 G2} (heq : hashInput S r = hashInput S r') : r = r' := by
  have hdecode := hfree.uniquelyDecodable (nil_notMem_jsonTexts h1 hfree)
  rw [hashInput_eq, hashInput_eq] at heq
  exact revealTexts_injective h1 h2 (hdecode _ _ (fun _ hw => mem_revealTexts S hw)
    (fun _ hw => mem_revealTexts S hw) heq)

/-- The texts of the smallest instance, one byte each. -/
theorem productSetup_texts : Function.Injective (productSetup 5 2).codec.json1
    ∧ Function.Injective (productSetup 5 2).codec.json2
    ∧ PrefixFree (jsonTexts (productSetup 5 2)) := by
  have hinjective : Function.Injective fun x : ZMod 5 => [UInt8.ofNat x.val] := by decide
  refine ⟨hinjective, hinjective, fun v hv w hw hle => ?_⟩
  have hlength : ∀ u ∈ jsonTexts (productSetup 5 2), u.length = 1 := by
    rintro u (⟨x, rfl⟩ | ⟨x, rfl⟩)
    · rfl
    · rfl
  exact hle.eq_of_length ((hlength v hv).trans (hlength w hw).symm)

/-- A reveal with two commitments, and the one that its bytes are read as. -/
theorem hash_input_injective_two :
    hashInput (productSetup 5 2) ⟨[.ofAdd 1, .ofAdd 4], .ofAdd 2, .ofAdd 3⟩ = [1, 4, 2, 3]
      ∧ (⟨[.ofAdd 1, .ofAdd 4], .ofAdd 2, .ofAdd 3⟩ :
          Reveal (Multiplicative (ZMod 5)) (Multiplicative (ZMod 5)))
        = ⟨[.ofAdd 6, .ofAdd (-1)], .ofAdd 7, .ofAdd 8⟩ :=
  ⟨by decide, hash_input_injective (productSetup 5 2) productSetup_texts.1 productSetup_texts.2.1
    productSetup_texts.2.2 (by decide)⟩

end Dittor.Crypto

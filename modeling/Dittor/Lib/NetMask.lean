import Mathlib

/-!
# Masks of networks

The mask of `m` bits is `allOnes w <<< (w - m)`. Under it a word is the first of its network, and
with the bits outside it set the last; these are the multiples of `2 ^ (w - m)` around the word
(`toNat_netFirst`, `toNat_netLast`). A word is in the network exactly if it lies between them
(`between_netWords_iff`), and so are whole blocks of a coarser split (`block_of_between`).

A network has `2 ^ (w - m)` words, so what some networks cover is at most the sum of these
(`card_le_sum_of_covered`).
-/

namespace Dittor.Lib

variable {w : ℕ}

/-- The mask with the first `m` of `w` bits. -/
def netMask (w m : ℕ) : BitVec w := BitVec.allOnes w <<< (w - m)

/-- The first word of the network. -/
def netFirst (mask x : BitVec w) : BitVec w := mask &&& x

/-- The last word of the network. -/
def netLast (mask x : BitVec w) : BitVec w := ~~~((mask &&& x) ^^^ mask)

section Words

variable {m : ℕ} {x : BitVec w}

theorem toNat_netFirst :
    (netFirst (netMask w m) x).toNat = x.toNat / 2 ^ (w - m) * 2 ^ (w - m) := by
  have hshift : netFirst (netMask w m) x = (x >>> (w - m)) <<< (w - m) := by
    ext i hi
    by_cases hlow : i < w - m
    · simp [netFirst, netMask, hlow]
    · have hback : w - m + (i - (w - m)) = i := by omega
      simp [netFirst, netMask, hlow, hback, BitVec.getLsbD_eq_getElem hi]
  have hle : x.toNat / 2 ^ (w - m) * 2 ^ (w - m) < 2 ^ w :=
    (Nat.div_mul_le_self _ _).trans_lt x.isLt
  rw [hshift, BitVec.toNat_shiftLeft, BitVec.toNat_ushiftRight, Nat.shiftRight_eq_div_pow,
    Nat.shiftLeft_eq, Nat.mod_eq_of_lt hle]

/-- The bits outside the mask. -/
theorem toNat_not_netMask (h : m ≤ w) : (~~~netMask w m).toNat = 2 ^ (w - m) - 1 := by
  have hpos : 1 ≤ 2 ^ (w - m) := Nat.one_le_two_pow
  have hle : 2 ^ (w - m) ≤ 2 ^ w := Nat.pow_le_pow_right (by omega) (by omega)
  have hones : (2 ^ w - 1) * 2 ^ (w - m) = 2 ^ w * (2 ^ (w - m) - 1) + (2 ^ w - 2 ^ (w - m)) := by
    zify [hpos, hle, hpos.trans hle]
    ring
  rw [BitVec.toNat_not, netMask, BitVec.toNat_shiftLeft, BitVec.toNat_allOnes, Nat.shiftLeft_eq,
    hones, Nat.mul_add_mod, Nat.mod_eq_of_lt (by omega)]
  omega

theorem toNat_netLast (h : m ≤ w) :
    (netLast (netMask w m) x).toNat
      = x.toNat / 2 ^ (w - m) * 2 ^ (w - m) + (2 ^ (w - m) - 1) := by
  have hor : netLast (netMask w m) x = netFirst (netMask w m) x ||| ~~~netMask w m := by
    ext i hi
    simp only [netLast, netFirst, BitVec.getElem_not, BitVec.getElem_xor, BitVec.getElem_and,
      BitVec.getElem_or]
    cases (netMask w m)[i] <;> cases x[i] <;> rfl
  have hand : netFirst (netMask w m) x &&& ~~~netMask w m = 0#w := by
    ext i hi
    simp only [netFirst, BitVec.getElem_and, BitVec.getElem_not, BitVec.getElem_zero]
    cases (netMask w m)[i] <;> cases x[i] <;> rfl
  rw [hor, ← BitVec.add_eq_or_of_and_eq_zero _ _ hand, BitVec.toNat_add_of_and_eq_zero hand,
    toNat_netFirst, toNat_not_netMask h]

end Words

section Blocks

variable {k l n x y : ℕ}

/-- Between the first and the last word is what has the same high part. -/
theorem between_netWords_iff :
    (x / 2 ^ k * 2 ^ k ≤ y ∧ y ≤ x / 2 ^ k * 2 ^ k + (2 ^ k - 1)) ↔ y / 2 ^ k = x / 2 ^ k := by
  have hpos : 0 < 2 ^ k := by positivity
  rw [Nat.div_eq_iff hpos, Nat.add_sub_assoc hpos]

/-- A block that reaches into a network of at least its size is in it. -/
theorem block_of_between (h : l ≤ k) (hlo : x / 2 ^ k * 2 ^ k / 2 ^ l ≤ n)
    (hhi : n ≤ (x / 2 ^ k * 2 ^ k + (2 ^ k - 1)) / 2 ^ l) (hy : y / 2 ^ l = n) :
    y / 2 ^ k = x / 2 ^ k := by
  have hpos : 0 < 2 ^ l := by positivity
  have hsize : 2 ^ k = 2 ^ l * 2 ^ (k - l) := by rw [← pow_add, Nat.add_sub_cancel' h]
  have hblocks : 1 ≤ 2 ^ (k - l) := Nat.one_le_two_pow
  have hlow : y / 2 ^ l / 2 ^ (k - l) = y / 2 ^ k := by rw [Nat.div_div_eq_div_mul, hsize]
  rw [← hlow, hy]
  generalize x / 2 ^ k = q at hlo hhi ⊢
  rw [hsize] at hlo hhi
  generalize 2 ^ (k - l) = c at hblocks hlo hhi ⊢
  generalize 2 ^ l = b at hpos hlo hhi
  have hfirst : q * (b * c) / b = q * c := by
    rw [Nat.mul_left_comm, Nat.mul_div_cancel_left _ hpos]
  have hlast : (q * (b * c) + (b * c - 1)) / b = q * c + (c - 1) := by
    have hsplit : q * (b * c) + (b * c - 1) = b * (q * c + (c - 1)) + (b - 1) := by
      have hbc : 1 ≤ b * c := Nat.one_le_iff_ne_zero.mpr (by positivity)
      zify [hbc, hblocks, hpos]
      ring
    rw [hsplit, Nat.mul_add_div hpos, Nat.div_eq_of_lt (by omega : b - 1 < b), Nat.add_zero]
  rw [hfirst] at hlo
  rw [hlast] at hhi
  rw [Nat.div_eq_iff (by omega)]
  omega

end Blocks

section Count

variable {α : Type} {covers : α → ℕ → Bool} {size : α → ℕ}

/-- The words of a network. -/
theorem card_block_le (k c : ℕ) (s : Finset ℕ) : (s.filter fun x => x / 2 ^ k = c).card ≤ 2 ^ k := by
  have hpos : 0 < 2 ^ k := by positivity
  have hsub : (s.filter fun x => x / 2 ^ k = c) ⊆ Finset.Ico (c * 2 ^ k) (c * 2 ^ k + 2 ^ k) := by
    intro x hx
    have hdiv := (Nat.div_eq_iff hpos).mp (Finset.mem_filter.mp hx).2
    rw [Finset.mem_Ico]
    omega
  calc _ ≤ (Finset.Ico (c * 2 ^ k) (c * 2 ^ k + 2 ^ k)).card := Finset.card_le_card hsub
    _ = 2 ^ k := by rw [Nat.card_Ico, Nat.add_sub_cancel_left]

/-- What is covered is at most the sum of what each one covers. -/
theorem card_le_sum_of_covered {l : List α} {s : Finset ℕ}
    (hcov : ∀ x ∈ s, ∃ a ∈ l, covers a x = true)
    (hsize : ∀ a ∈ l, ∀ t ⊆ s, (t.filter fun x => covers a x = true).card ≤ size a) :
    s.card ≤ (l.map size).sum := by
  induction l generalizing s with
  | nil =>
    have hempty : s = ∅ := Finset.eq_empty_of_forall_notMem fun x hx => by
      obtain ⟨a, ha, -⟩ := hcov x hx
      exact List.not_mem_nil ha
    rw [hempty]
    exact Nat.zero_le _
  | cons a l ih =>
    have hrest : (s.filter fun x => ¬ covers a x = true).card ≤ (l.map size).sum := by
      refine ih (fun x hx => ?_) fun b hb t ht =>
        hsize b (List.mem_cons_of_mem _ hb) t (ht.trans (Finset.filter_subset _ _))
      obtain ⟨hmem, hnot⟩ := Finset.mem_filter.mp hx
      obtain ⟨b, hb, hbx⟩ := hcov x hmem
      rcases List.mem_cons.mp hb with rfl | hb
      · exact absurd hbx hnot
      · exact ⟨b, hb, hbx⟩
    have hone := hsize a List.mem_cons_self s (Finset.Subset.refl s)
    have hsplit := Finset.card_filter_add_card_filter_not (s := s) fun x => covers a x = true
    rw [List.map_cons, List.sum_cons]
    omega

end Count

end Dittor.Lib

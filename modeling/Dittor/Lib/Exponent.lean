import Mathlib.Data.ZMod.Basic
import Mathlib.Algebra.Field.ZMod
import Mathlib.Algebra.BigOperators.Group.List.Basic
import Mathlib.Algebra.BigOperators.Fin

/-!
# Groups with exponents in `ZMod p`

Discrete-logarithm protocols raise elements of a commutative group of order
`p` to exponents that live in the field `ZMod p`, and every correctness
argument about them is arithmetic on those exponents. `zpw g a` is that
power; the lemmas below let a proof move any product of powers into one
exponent and compare exponents there (`zpw_inj`).

Nothing here names a protocol: `ExpGroup p G` only says that `p` kills `G`,
and `IsGenerator` that one element reaches the whole group.
-/

namespace Dittor.Lib

/-- A commutative group all of whose elements are killed by the exponent `p`. -/
class ExpGroup (p : ℕ) (G : Type*) [CommGroup G] : Prop where
  pow_p : ∀ g : G, g ^ p = 1

/-- The power `g ^ a` with the exponent taken in `ZMod p`. -/
def zpw {p : ℕ} {G : Type*} [CommGroup G] (g : G) (a : ZMod p) : G := g ^ a.val

section Power

variable {p : ℕ} {G : Type*} [CommGroup G]

@[simp] theorem zpw_zero [NeZero p] (g : G) : zpw g (0 : ZMod p) = 1 := by
  rw [zpw, ZMod.val_zero, pow_zero]

@[simp] theorem one_zpw (a : ZMod p) : zpw (1 : G) a = 1 := one_pow _

theorem mul_zpw (g h : G) (a : ZMod p) : zpw (g * h) a = zpw g a * zpw h a := mul_pow g h _

/-- Only the residue of a natural exponent matters. -/
theorem pow_mod_p [ExpGroup p G] (g : G) (n : ℕ) : g ^ (n % p) = g ^ n := by
  conv_rhs => rw [← Nat.div_add_mod n p]
  rw [pow_add, pow_mul, ExpGroup.pow_p (p := p) g, one_pow, one_mul]

end Power

section ExpGroup

variable {p : ℕ} [Fact p.Prime] {G : Type*} [CommGroup G] [ExpGroup p G]

theorem zpw_natCast (g : G) (n : ℕ) : zpw g (n : ZMod p) = g ^ n := by
  rw [zpw, ZMod.val_natCast, pow_mod_p]

@[simp] theorem zpw_one (g : G) : zpw g (1 : ZMod p) = g := by
  have h := zpw_natCast (p := p) g 1
  rwa [Nat.cast_one, pow_one] at h

theorem zpw_add (g : G) (a b : ZMod p) : zpw g (a + b) = zpw g a * zpw g b := by
  rw [zpw, ZMod.val_add, pow_mod_p, pow_add]
  rfl

theorem zpw_mul (g : G) (a b : ZMod p) : zpw g (a * b) = zpw (zpw g a) b := by
  rw [zpw, ZMod.val_mul, pow_mod_p, pow_mul]
  rfl

theorem zpw_neg (g : G) (a : ZMod p) : zpw g (-a) = (zpw g a)⁻¹ := by
  rw [eq_inv_iff_mul_eq_one, ← zpw_add, neg_add_cancel, zpw_zero]

theorem zpw_sub (g : G) (a b : ZMod p) : zpw g (a - b) = zpw g a * (zpw g b)⁻¹ := by
  rw [sub_eq_add_neg, zpw_add, zpw_neg]

/-- A product of powers of one element is the power by the sum. -/
theorem prod_zpw {α : Type*} (g : G) (f : α → ZMod p) (l : List α) :
    (l.map fun x => zpw g (f x)).prod = zpw g (l.map f).sum := by
  induction l with
  | nil => simp
  | cons x xs ih =>
    rw [List.map_cons, List.prod_cons, ih, List.map_cons, List.sum_cons, zpw_add]

/-- The order of a nontrivial element is all of `p`: equal powers have equal
exponents. -/
theorem zpw_inj {g : G} (hg : g ≠ 1) {a b : ZMod p} : zpw g a = zpw g b ↔ a = b := by
  constructor
  · intro h
    by_contra hab
    have hsub : zpw g (a - b) = 1 := by rw [zpw_sub, h, mul_inv_cancel]
    have hne : a - b ≠ 0 := sub_ne_zero.mpr hab
    apply hg
    calc g = zpw g ((a - b) * (a - b)⁻¹) := by rw [mul_inv_cancel₀ hne, zpw_one]
      _ = 1 := by rw [zpw_mul, hsub, one_zpw]
  · intro h
    rw [h]

/-- The extractor of two transcripts: one commitment `g^s / x^c` opened under two
challenges gives a discrete logarithm of `x`, whatever element `x` is. -/
theorem zpw_extract {g x : G} {s s' c c' : ZMod p} (hc : c ≠ c')
    (h : zpw g s * (zpw x c)⁻¹ = zpw g s' * (zpw x c')⁻¹) :
    zpw g ((s - s') / (c - c')) = x := by
  have hne : c - c' ≠ 0 := sub_ne_zero.mpr hc
  have hpow : zpw g (s - s') = zpw x (c - c') := by
    rw [← div_eq_mul_inv, ← div_eq_mul_inv, div_eq_div_iff_div_eq_div] at h
    rw [zpw_sub, zpw_sub, ← div_eq_mul_inv, ← div_eq_mul_inv, h]
  calc zpw g ((s - s') / (c - c')) = zpw (zpw g (s - s')) (c - c')⁻¹ := by
        rw [div_eq_mul_inv, zpw_mul]
    _ = zpw x ((c - c') * (c - c')⁻¹) := by rw [hpow, zpw_mul]
    _ = x := by rw [mul_inv_cancel₀ hne, zpw_one]

end ExpGroup

/-- Every element of the group is a power of `g`. -/
def IsGenerator (p : ℕ) {G : Type*} [CommGroup G] (g : G) : Prop :=
  ∀ x : G, ∃ a : ZMod p, x = zpw g a

/-- The integers mod `p`, written multiplicatively: the smallest example. -/
instance expGroupMultiplicative (p : ℕ) : ExpGroup p (Multiplicative (ZMod p)) where
  pow_p g := by
    rw [← ofAdd_toAdd g, ← ofAdd_nsmul, nsmul_eq_mul, ZMod.natCast_self, zero_mul]
    rfl

end Dittor.Lib

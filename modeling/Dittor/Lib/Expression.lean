import Dittor.Lib.Exponent

/-!
# What can be computed from given group elements

A party that is handed the elements `v i` and knows exponents, but no discrete
logarithms, can multiply, invert and raise to powers. `GroupExpr p ι` is the
syntax of such a computation over the given elements `ι`, `eval` its value.

All of it happens in the exponent: over bases `g^{w i}` the value is `g` to the
`exponent` of the expression (`eval_zpw`), and that exponent is linear in the
bases, with coefficients that the expression alone determines
(`exponent_eq_sum`). So what a party can reach with given elements is exactly
their products of powers.
-/

namespace Dittor.Lib

/-- A computation by group operations and exponentiation from the bases `ι`. -/
inductive GroupExpr (p : ℕ) (ι : Type) where
  | base (i : ι)
  | one
  | op (a b : GroupExpr p ι)
  | inv (a : GroupExpr p ι)
  | pow (a : GroupExpr p ι) (e : ZMod p)

namespace GroupExpr

variable {p : ℕ} {ι : Type}

/-- The element computed, over bases `v`. -/
def eval {G : Type*} [CommGroup G] (v : ι → G) : GroupExpr p ι → G
  | base i => v i
  | one => 1
  | op a b => a.eval v * b.eval v
  | inv a => (a.eval v)⁻¹
  | pow a e => zpw (a.eval v) e

/-- The discrete logarithm of the element, over bases with logarithms `w`. -/
def exponent (w : ι → ZMod p) : GroupExpr p ι → ZMod p
  | base i => w i
  | one => 0
  | op a b => a.exponent w + b.exponent w
  | inv a => -a.exponent w
  | pow a e => a.exponent w * e

/-- The power of base `i` in the element. -/
def coeff [DecidableEq ι] (i : ι) (a : GroupExpr p ι) : ZMod p :=
  a.exponent fun j => if j = i then 1 else 0

theorem eval_zpw [Fact p.Prime] {G : Type*} [CommGroup G] [ExpGroup p G] (g : G)
    {v : ι → G} {w : ι → ZMod p} (h : ∀ i, v i = zpw g (w i)) (a : GroupExpr p ι) :
    a.eval v = zpw g (a.exponent w) := by
  induction a with
  | base i => exact h i
  | one => exact (zpw_zero g).symm
  | op a b iha ihb => rw [eval, exponent, zpw_add, iha, ihb]
  | inv a ih => rw [eval, exponent, zpw_neg, ih]
  | pow a e ih => rw [eval, exponent, zpw_mul, ih]

/-- The exponent is linear in the exponents of the bases. -/
theorem exponent_eq_sum [DecidableEq ι] [Fintype ι] (w : ι → ZMod p) (a : GroupExpr p ι) :
    a.exponent w = ∑ i, a.coeff i * w i := by
  induction a with
  | base i => simp [exponent, coeff]
  | one => simp [exponent, coeff]
  | op a b iha ihb =>
    rw [exponent, iha, ihb, ← Finset.sum_add_distrib]
    exact Finset.sum_congr rfl fun i _ => (add_mul ..).symm
  | inv a ih =>
    rw [exponent, ih, ← Finset.sum_neg_distrib]
    exact Finset.sum_congr rfl fun i _ => (neg_mul ..).symm
  | pow a e ih =>
    rw [exponent, ih, Finset.sum_mul]
    exact Finset.sum_congr rfl fun i _ => mul_right_comm ..

end GroupExpr

end Dittor.Lib

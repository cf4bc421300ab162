import Mathlib.LinearAlgebra.Lagrange
import Mathlib.Algebra.BigOperators.Group.Finset.Basic

/-!
# Polynomials as coefficient lists, and interpolation at zero

Secret sharing stores a polynomial as the list of its coefficients, evaluates
it with a running power of the point (`runningPower`), and recovers its value
at `0` from enough of its values with the Lagrange weights
`∏_{j ≠ i} (-j) / (i - j)`. `runningPower_eq` ties the loop to evaluation, and
`weights_recover` is the reconstruction itself, over a list of distinct points
in any order.
-/

namespace Dittor.Lib

open Polynomial

section Coefficients

variable {R : Type*} [CommRing R]

/-- The polynomial with the given coefficients, constant one first. -/
noncomputable def ofCoeffs : List R → R[X]
  | [] => 0
  | c :: cs => C c + X * ofCoeffs cs

@[simp] theorem eval_ofCoeffs_nil (x : R) : (ofCoeffs ([] : List R)).eval x = 0 := by
  simp [ofCoeffs]

@[simp] theorem eval_ofCoeffs_cons (c : R) (cs : List R) (x : R) :
    (ofCoeffs (c :: cs)).eval x = c + x * (ofCoeffs cs).eval x := by
  simp [ofCoeffs]

theorem eval_zero_ofCoeffs (l : List R) : (ofCoeffs l).eval 0 = l.headD 0 := by
  cases l with
  | nil => simp
  | cons c cs => simp

/-- One round of the loop: add the coefficient times the running power. -/
def runningPower (x : R) (acc : R × R) (c : R) : R × R := (acc.1 + c * acc.2, acc.2 * x)

/-- The loop started at any accumulator and power. -/
theorem runningPower_foldl (x : R) (l : List R) :
    ∀ acc : R × R,
      (l.foldl (runningPower x) acc).1 = acc.1 + acc.2 * (ofCoeffs l).eval x := by
  induction l with
  | nil => intro acc; simp
  | cons c cs ih =>
    intro acc
    rw [List.foldl_cons, ih, eval_ofCoeffs_cons]
    simp only [runningPower]
    ring

theorem runningPower_eq (x : R) (l : List R) :
    (l.foldl (runningPower x) (0, 1)).1 = (ofCoeffs l).eval x := by
  rw [runningPower_foldl, zero_add, one_mul]

theorem degree_ofCoeffs_lt [Nontrivial R] (l : List R) :
    (ofCoeffs l).degree < (l.length : WithBot ℕ) := by
  induction l with
  | nil => simp [ofCoeffs]
  | cons c cs ih =>
    have hX : (X * ofCoeffs cs).degree < ((cs.length + 1 : ℕ) : WithBot ℕ) := by
      calc (X * ofCoeffs cs).degree ≤ (X : R[X]).degree + (ofCoeffs cs).degree :=
            degree_mul_le _ _
        _ = (ofCoeffs cs).degree + 1 := by rw [degree_X, add_comm]
        _ < ((cs.length + 1 : ℕ) : WithBot ℕ) := by
            rw [Nat.cast_add, Nat.cast_one]
            exact WithBot.add_lt_add_right (by simp) ih
    have hC : (C c : R[X]).degree < ((cs.length + 1 : ℕ) : WithBot ℕ) :=
      lt_of_le_of_lt degree_C_le (by exact_mod_cast Nat.succ_pos _)
    exact lt_of_le_of_lt (degree_add_le _ _) (max_lt hC hX)

end Coefficients

section Lagrange

variable {F : Type*} [Field F] [DecidableEq F]

/-- The Lagrange weight of `x` among the points `xs`, for the value at `0`:
the numerators are `0 - y`, the denominators `x - y`. -/
def weightAtZero (xs : List F) (x : F) : F :=
  ((xs.filter (· ≠ x)).map fun y => -y).prod * ((xs.filter (· ≠ x)).map fun y => x - y).prod⁻¹

/-- The weights do not see the order of the points. -/
theorem weightAtZero_perm {xs ys : List F} (h : xs.Perm ys) (x : F) :
    weightAtZero xs x = weightAtZero ys x := by
  have hfilter := h.filter (· ≠ x)
  rw [weightAtZero, weightAtZero, (hfilter.map _).prod_eq, (hfilter.map _).prod_eq]

/-- The weight is the Lagrange basis polynomial at `0`. -/
theorem weightAtZero_eq_basis {xs : List F} (hnd : xs.Nodup) (x : F) :
    weightAtZero xs x = (Lagrange.basis xs.toFinset id x).eval 0 := by
  have hfin : (xs.filter (· ≠ x)).toFinset = xs.toFinset.erase x := by
    ext y
    simp [and_comm]
  have hprod : ∀ f : F → F,
      ((xs.filter (· ≠ x)).map f).prod = ∏ y ∈ xs.toFinset.erase x, f y := by
    intro f
    rw [← hfin, List.prod_toFinset f (hnd.filter _)]
  rw [weightAtZero, hprod, hprod, Lagrange.basis, eval_prod, ← Finset.prod_inv_distrib,
    ← Finset.prod_mul_distrib]
  apply Finset.prod_congr rfl
  intro y _
  simp [Lagrange.basisDivisor, mul_comm]

/-- **Reconstruction.** The value at `0` of a polynomial of degree below the
number of distinct points is the weighted sum of its values at the points. -/
theorem weights_recover {xs : List F} (hnd : xs.Nodup) {f : F[X]}
    (hdeg : f.degree < (xs.length : WithBot ℕ)) :
    (xs.map fun x => weightAtZero xs x * f.eval x).sum = f.eval 0 := by
  have hcard : xs.toFinset.card = xs.length := List.toFinset_card_of_nodup hnd
  have hint : f = Lagrange.interpolate xs.toFinset id fun x => f.eval x :=
    Lagrange.eq_interpolate (Set.injOn_id _) (by rw [hcard]; exact hdeg)
  calc (xs.map fun x => weightAtZero xs x * f.eval x).sum
      = ∑ x ∈ xs.toFinset, weightAtZero xs x * f.eval x := by
        rw [List.sum_toFinset _ hnd]
    _ = ∑ x ∈ xs.toFinset, f.eval x * (Lagrange.basis xs.toFinset id x).eval 0 := by
        apply Finset.sum_congr rfl
        intro x _
        rw [weightAtZero_eq_basis hnd, mul_comm]
    _ = f.eval 0 := by
        conv_rhs => rw [hint]
        simp [Lagrange.interpolate_apply, eval_finsetSum]

end Lagrange

end Dittor.Lib

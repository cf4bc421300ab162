import Mathlib
import Dittor.Lib.TruncDiv

/-!
# Arithmetic of a fixed width

In C a signed operation whose result does not fit its type is undefined, and so is a division by
zero. Here such an operation is a step of a computation in `Except` that fails there.

`Settles r P a` says exactly when a computation gets through: it gives `a` where `P` holds, and
overflows elsewhere. It is put together along the computation (`Settles.bind`), and it excludes a
division by zero (`Settles.faultless_iff`).
-/

namespace Dittor.Lib

variable {ε α β : Type}

/-- What stops a computation: its arithmetic, or an assertion of the program. -/
inductive Fault (ε : Type) where
  | overflow | divisionByZero | assertion (e : ε)
deriving DecidableEq, Repr

/-- The numbers of a signed type. -/
def InInt (bits : ℕ) (z : ℤ) : Prop := -2 ^ (bits - 1) ≤ z ∧ z < 2 ^ (bits - 1)

instance (bits : ℕ) (z : ℤ) : Decidable (InInt bits z) := inferInstanceAs (Decidable (_ ∧ _))

/-! ## The operations -/

/-- A result that has to fit. -/
def fitInt (bits : ℕ) (z : ℤ) : Except (Fault ε) ℤ :=
  if InInt bits z then .ok z else .error .overflow

def addInt (bits : ℕ) (a b : ℤ) : Except (Fault ε) ℤ := fitInt bits (a + b)

def subInt (bits : ℕ) (a b : ℤ) : Except (Fault ε) ℤ := fitInt bits (a - b)

def mulInt (bits : ℕ) (a b : ℤ) : Except (Fault ε) ℤ := fitInt bits (a * b)

/-- A quotient rounds towards zero. -/
def quoInt (bits : ℕ) (a b : ℤ) : Except (Fault ε) ℤ :=
  if b = 0 then .error .divisionByZero else fitInt bits (a.tdiv b)

/-- `a * b / c` -/
def mulQuoInt (bits : ℕ) (a b c : ℤ) : Except (Fault ε) ℤ := do
  quoInt bits (← mulInt bits a b) c

/-- `sum + a * b + c * d + ...`, from left to right. -/
def addProducts (bits : ℕ) : ℤ → List (ℤ × ℤ) → Except (Fault ε) ℤ
  | sum, [] => .ok sum
  | sum, p :: ps => do
    let product ← mulInt bits p.1 p.2
    addProducts bits (← addInt bits sum product) ps

/-- `a * b + c * d + ...` -/
def dotInt (bits : ℕ) : List (ℤ × ℤ) → Except (Fault ε) ℤ
  | [] => .ok 0
  | p :: ps => do addProducts bits (← mulInt bits p.1 p.2) ps

/-- The same without a width. -/
def dot (ps : List (ℤ × ℤ)) : ℤ := (ps.map fun p => p.1 * p.2).sum

/-- The arithmetic of a computation is defined; it may still stop at an assertion. -/
def Faultless (r : Except (Fault ε) α) : Prop :=
  r ≠ .error .overflow ∧ r ≠ .error .divisionByZero

/-- It gives `a` exactly when `P` holds, and overflows otherwise. -/
def Settles (r : Except (Fault ε) α) (P : Prop) (a : α) : Prop :=
  (P → r = .ok a) ∧ (¬ P → r = .error .overflow)

theorem inInt64_iff {z : ℤ} :
    InInt 64 z ↔ -9223372036854775808 ≤ z ∧ z ≤ 9223372036854775807 := by
  unfold InInt
  norm_num
  omega

theorem inInt32_iff {z : ℤ} : InInt 32 z ↔ -2147483648 ≤ z ∧ z ≤ 2147483647 := by
  unfold InInt
  norm_num
  omega

theorem ok_bind (a : α) (f : α → Except (Fault ε) β) : (Except.ok a >>= f) = f a := rfl

/-! ## Operations of 64 bits that fit -/

section Fits

variable {a b : ℤ}

theorem addInt64_eq (hlo : -9223372036854775808 ≤ a + b) (hhi : a + b ≤ 9223372036854775807) :
    (addInt 64 a b : Except (Fault ε) ℤ) = .ok (a + b) :=
  if_pos (inInt64_iff.mpr ⟨hlo, hhi⟩)

theorem subInt64_eq (hlo : -9223372036854775808 ≤ a - b) (hhi : a - b ≤ 9223372036854775807) :
    (subInt 64 a b : Except (Fault ε) ℤ) = .ok (a - b) :=
  if_pos (inInt64_iff.mpr ⟨hlo, hhi⟩)

theorem mulInt64_eq (hlo : -9223372036854775808 ≤ a * b) (hhi : a * b ≤ 9223372036854775807) :
    (mulInt 64 a b : Except (Fault ε) ℤ) = .ok (a * b) :=
  if_pos (inInt64_iff.mpr ⟨hlo, hhi⟩)

/-- The quotient by a positive divisor is no larger than the numerator, by that factor. -/
theorem abs_tdiv_mul_le (hb : 0 < b) : |a.tdiv b| * b ≤ |a| := by
  have hdown : b * |a|.tdiv b ≤ |a| := tdiv_le_self (abs_nonneg a)
  have habs : |a.tdiv b| = |a|.tdiv b := by
    rcases le_total 0 a with ha | ha
    · rw [abs_of_nonneg ha, abs_of_nonneg (Int.tdiv_nonneg ha hb.le)]
    · have hneg : 0 ≤ (-a).tdiv b := Int.tdiv_nonneg (by omega) hb.le
      rw [abs_of_nonpos ha, Int.neg_tdiv, abs_of_nonpos]
      rw [Int.neg_tdiv] at hneg
      omega
  rw [habs, mul_comm]
  exact hdown

/-- A factor of the divisor bounds the quotient. -/
theorem mul_tdiv_range (ha : InInt 64 a) {k : ℤ} (hk : 0 < k) (hb : 0 < b) :
    -9223372036854775808 ≤ k * a.tdiv (k * b) ∧ k * a.tdiv (k * b) ≤ 9223372036854775808 := by
  rw [inInt64_iff] at ha
  have habs : |a| ≤ 9223372036854775808 := abs_le.mpr (by omega)
  have hle := abs_tdiv_mul_le (a := a) (mul_pos hk hb)
  have hone : |a.tdiv (k * b)| * k * 1 ≤ |a.tdiv (k * b)| * k * b :=
    mul_le_mul_of_nonneg_left hb (mul_nonneg (abs_nonneg _) hk.le)
  rw [← abs_le, abs_mul, abs_of_pos hk]
  calc k * |a.tdiv (k * b)| = |a.tdiv (k * b)| * k * 1 := by ring
    _ ≤ |a.tdiv (k * b)| * k * b := hone
    _ = |a.tdiv (k * b)| * (k * b) := by ring
    _ ≤ |a| := hle
    _ ≤ 9223372036854775808 := habs

theorem quoInt64_eq (ha : InInt 64 a) (hb : 0 < b) :
    (quoInt 64 a b : Except (Fault ε) ℤ) = .ok (a.tdiv b) := by
  unfold quoInt
  rw [if_neg hb.ne']
  refine if_pos (inInt64_iff.mpr ?_)
  rw [inInt64_iff] at ha
  rcases le_total 0 a with hpos | hneg
  · have hle := Int.tdiv_le_self b hpos
    have hnonneg := Int.tdiv_nonneg hpos hb.le
    omega
  · have hle := Int.tdiv_le_self (a := -a) b (by omega)
    have hnonneg := Int.tdiv_nonneg (a := -a) (b := b) (by omega) hb.le
    rw [Int.neg_tdiv] at hle hnonneg
    omega

end Fits

/-! ## When a computation gets through -/

section Settles

variable {r : Except (Fault ε) α} {f : α → Except (Fault ε) β} {P Q : Prop} {a : α} {b : β}

theorem settles_ok (a : α) : Settles (.ok a : Except (Fault ε) α) True a :=
  ⟨fun _ => rfl, fun h => absurd trivial h⟩

theorem settles_fitInt (bits : ℕ) (z : ℤ) :
    Settles (fitInt bits z : Except (Fault ε) ℤ) (InInt bits z) z :=
  ⟨fun h => if_pos h, fun h => if_neg h⟩

theorem settles_mulInt (bits : ℕ) (x y : ℤ) :
    Settles (mulInt bits x y : Except (Fault ε) ℤ) (InInt bits (x * y)) (x * y) :=
  settles_fitInt bits (x * y)

theorem settles_addInt (bits : ℕ) (x y : ℤ) :
    Settles (addInt bits x y : Except (Fault ε) ℤ) (InInt bits (x + y)) (x + y) :=
  settles_fitInt bits (x + y)

theorem Settles.iff (h : Settles r P a) (hiff : P ↔ Q) : Settles r Q a :=
  ⟨fun hQ => h.1 (hiff.mpr hQ), fun hQ => h.2 fun hP => hQ (hiff.mp hP)⟩

/-- One step after the other. -/
theorem Settles.bind (h : Settles r P a) (hf : P → Settles (f a) Q b) :
    Settles (r >>= f) (P ∧ Q) b := by
  constructor
  · intro ⟨hP, hQ⟩
    rw [h.1 hP]
    exact (hf hP).1 hQ
  · intro hnot
    by_cases hP : P
    · rw [h.1 hP]
      exact (hf hP).2 fun hQ => hnot ⟨hP, hQ⟩
    · rw [h.2 hP]
      rfl

/-- The arithmetic before it is defined. -/
theorem Settles.of_ok {x : Except (Fault ε) α} (hx : x = .ok a) (hf : Settles (f a) Q b) :
    Settles (x >>= f) Q b := by
  rw [hx]
  exact hf

/-- The arithmetic after it is defined. -/
theorem Settles.pure (h : Settles r P a) (g : α → β) :
    Settles (r >>= fun x => Pure.pure (g x)) P (g a) :=
  (h.bind fun _ => settles_ok (g a)).iff (and_iff_left trivial)

theorem Settles.ite {c : Prop} [Decidable c] {r' : Except (Fault ε) α} {a' : α}
    (hpos : c → Settles r P a) (hneg : ¬ c → Settles r' Q a') :
    Settles (if c then r else r') (if c then P else Q) (if c then a else a') := by
  split_ifs with hc
  · exact hpos hc
  · exact hneg hc

/-- A quotient of a product is as large as the product lets it be. -/
theorem settles_mulQuoInt64 (x y : ℤ) {z : ℤ} (hz : 0 < z) :
    Settles (mulQuoInt 64 x y z : Except (Fault ε) ℤ) (InInt 64 (x * y)) ((x * y).tdiv z) := by
  refine ((settles_mulInt 64 x y).bind fun hfits => ?_).iff (and_true _).to_iff
  rw [quoInt64_eq hfits hz]
  exact settles_ok _

theorem dot_nonneg {ps : List (ℤ × ℤ)} (hpos : ∀ p ∈ ps, 0 ≤ p.1 * p.2) : 0 ≤ dot ps :=
  List.sum_nonneg fun x hx => by
    obtain ⟨p, hp, rfl⟩ := List.mem_map.mp hx
    exact hpos p hp

theorem settles_addProducts64 {ps : List (ℤ × ℤ)} (hpos : ∀ p ∈ ps, 0 ≤ p.1 * p.2) {sum : ℤ}
    (hsum : 0 ≤ sum) (hfits : sum ≤ 9223372036854775807) :
    Settles (addProducts 64 sum ps : Except (Fault ε) ℤ) (sum + dot ps ≤ 9223372036854775807)
      (sum + dot ps) := by
  induction ps generalizing sum with
  | nil =>
    have hnil : sum + dot [] = sum := add_zero sum
    rw [hnil]
    exact (settles_ok sum).iff (iff_of_true trivial hfits)
  | cons p ps ih =>
    have hp := hpos p List.mem_cons_self
    have hps : ∀ q ∈ ps, 0 ≤ q.1 * q.2 := fun q hq => hpos q (List.mem_cons_of_mem p hq)
    have hrest := dot_nonneg hps
    have hcons : sum + dot (p :: ps) = sum + p.1 * p.2 + dot ps := by
      unfold dot
      rw [List.map_cons, List.sum_cons]
      ring
    rw [hcons]
    refine ((settles_mulInt 64 p.1 p.2).bind fun _ => (settles_addInt 64 sum (p.1 * p.2)).bind
      fun hadd => ih hps (by omega) (inInt64_iff.mp hadd).2).iff ?_
    rw [inInt64_iff, inInt64_iff]
    omega

/-- Products that are not negative overflow as soon as their sum does. -/
theorem settles_dotInt64 {ps : List (ℤ × ℤ)} (hpos : ∀ p ∈ ps, 0 ≤ p.1 * p.2) :
    Settles (dotInt 64 ps : Except (Fault ε) ℤ) (dot ps ≤ 9223372036854775807) (dot ps) := by
  cases ps with
  | nil => exact (settles_ok 0).iff (iff_of_true trivial (by decide))
  | cons p ps =>
    have hp := hpos p List.mem_cons_self
    have hps : ∀ q ∈ ps, 0 ≤ q.1 * q.2 := fun q hq => hpos q (List.mem_cons_of_mem p hq)
    have hrest := dot_nonneg hps
    have hcons : dot (p :: ps) = p.1 * p.2 + dot ps := by
      unfold dot
      rw [List.map_cons, List.sum_cons]
    rw [hcons]
    refine ((settles_mulInt 64 p.1 p.2).bind fun hmul =>
      settles_addProducts64 hps hp (inInt64_iff.mp hmul).2).iff ?_
    rw [inInt64_iff]
    omega

/-- Its arithmetic is defined exactly when it gets through. -/
theorem Settles.faultless_iff (h : Settles r P a) : Faultless r ↔ P := by
  constructor
  · intro ⟨hover, _⟩
    by_contra hP
    exact hover (h.2 hP)
  · intro hP
    rw [h.1 hP]
    exact ⟨(fun heq => nomatch heq), fun heq => nomatch heq⟩

end Settles

end Dittor.Lib

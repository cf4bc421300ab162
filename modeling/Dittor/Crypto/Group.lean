import Dittor.Lib.Exponent
import Mathlib.Tactic.NormNum.Prime

/-!
# The bilinear group and the byte encodings the protocol is built on

`CryptimeleonSetup.java` fixes one bilinear group (BLS12-381, from the
Cryptimeleon library) and three generators `g1`, `h1`, `g2`. The library is
not part of the repository, so the group is a parameter: `BilinearGroup`
lists what the code relies on (cyclic groups of one prime order and a
non-degenerate bilinear map) and every theorem of the development holds for
any instance of it. `Codec` is the same for the library's serialisations and
for SHA-256: the code only ever feeds them bytes and reads bytes back.

The rest of the file is the exponent arithmetic of the pairing: applied to
powers of the generators it is the power of `e(g1, g2)` by the product
(`apply_zpw`), and pairing with `g2` loses nothing (`apply_g2_inj`), which is
what turns every pairing check of the DA into an equation between exponents.
-/

namespace Dittor.Crypto

open Dittor.Lib

/-- A string of the Java side, as its characters. -/
abbrev Text := List Char

/-- `BilinearGroup` of the Cryptimeleon library: two generated groups and a
non-degenerate bilinear map. That all groups have exponent `p` is carried by
the `ExpGroup` instances. -/
structure BilinearGroup (p : ℕ) (G1 G2 GT : Type) [CommGroup G1] [CommGroup G2]
    [CommGroup GT] where
  /-- `getG1().getGenerator()` -/
  g1 : G1
  /-- `getG2().getGenerator()` -/
  g2 : G2
  /-- `getBilinearMap().apply` -/
  apply : G1 → G2 → GT
  gen1 : IsGenerator p g1
  gen2 : IsGenerator p g2
  apply_mul_left : ∀ a b c, apply (a * b) c = apply a c * apply b c
  apply_mul_right : ∀ a b c, apply a (b * c) = apply a b * apply a c
  nondegenerate : apply g1 g2 ≠ 1

/-- The serialisations and the hash the code hands group elements to. -/
structure Codec (G1 G2 GT : Type) where
  /-- `jsonConverter.serialize(c.getRepresentation())` as UTF-8 bytes, on G1. -/
  json1 : G1 → List UInt8
  /-- The same on G2. -/
  json2 : G2 → List UInt8
  /-- `getUniqueByteRepresentation` on G1, G2 and GT. -/
  unique1 : G1 → List UInt8
  unique2 : G2 → List UInt8
  uniqueT : GT → List UInt8
  /-- `MessageDigest.getInstance("SHA-256").digest` -/
  sha256 : List UInt8 → List UInt8

/-- `CryptimeleonSetup`: the group, and the Pedersen generator `h1` that is
hashed from `PEDERSEN_H1_SEED`. -/
structure CryptimeleonSetup (p : ℕ) (G1 G2 GT : Type) [CommGroup G1] [CommGroup G2]
    [CommGroup GT] where
  pairing : BilinearGroup p G1 G2 GT
  h1 : G1
  codec : Codec G1 G2 GT

/-- One digit of `String.format("%02x", b)`. -/
def hexDigit (n : ℕ) : Char :=
  if n < 10 then Char.ofNat (48 + n) else Char.ofNat (87 + n)

/-- The `StringBuilder` loop over `String.format("%02x", b)`. -/
def hexText (bytes : List UInt8) : Text :=
  bytes.flatMap fun b => [hexDigit (b.toNat / 16), hexDigit (b.toNat % 16)]

/-- `new BigInteger(1, bytes)`: the bytes as one unsigned big-endian number. -/
def bigInteger (bytes : List UInt8) : ℕ :=
  bytes.foldl (fun acc b => acc * 256 + b.toNat) 0

/-- `getBytes(StandardCharsets.UTF_8)` -/
def utf8Bytes (s : Text) : List UInt8 := s.flatMap String.utf8EncodeChar

namespace BilinearGroup

section Bilinear

variable {p : ℕ} {G1 G2 GT : Type} [CommGroup G1] [CommGroup G2] [CommGroup GT]
  (B : BilinearGroup p G1 G2 GT)

/-- `gpairing`, the generator `e(g1, g2)` of the target group. -/
def gpairing : GT := B.apply B.g1 B.g2

theorem gpairing_ne_one : B.gpairing ≠ 1 := B.nondegenerate

theorem apply_one_left (b : G2) : B.apply 1 b = 1 := by
  have h := B.apply_mul_left 1 1 b
  rw [one_mul] at h
  exact left_eq_mul.mp h

theorem apply_one_right (a : G1) : B.apply a 1 = 1 := by
  have h := B.apply_mul_right a 1 1
  rw [one_mul] at h
  exact left_eq_mul.mp h

theorem apply_pow_left (a : G1) (b : G2) (n : ℕ) : B.apply (a ^ n) b = B.apply a b ^ n := by
  induction n with
  | zero => rw [pow_zero, pow_zero, apply_one_left]
  | succ n ih => rw [pow_succ, B.apply_mul_left, ih, pow_succ]

theorem apply_pow_right (a : G1) (b : G2) (n : ℕ) : B.apply a (b ^ n) = B.apply a b ^ n := by
  induction n with
  | zero => rw [pow_zero, pow_zero, apply_one_right]
  | succ n ih => rw [pow_succ, B.apply_mul_right, ih, pow_succ]

theorem g1_ne_one : B.g1 ≠ 1 := by
  intro h
  apply B.nondegenerate
  rw [h, apply_one_left]

theorem g2_ne_one : B.g2 ≠ 1 := by
  intro h
  apply B.nondegenerate
  rw [h, apply_one_right]

theorem apply_zpw_g2 (a : ZMod p) : B.apply (zpw B.g1 a) B.g2 = zpw B.gpairing a :=
  B.apply_pow_left B.g1 B.g2 a.val

end Bilinear

section PrimeOrder

variable {p : ℕ} [Fact p.Prime] {G1 G2 GT : Type} [CommGroup G1] [CommGroup G2]
  [CommGroup GT] [ExpGroup p GT] (B : BilinearGroup p G1 G2 GT)

/-- The pairing of two powers of the generators is the power of `e(g1, g2)`
by the product of the exponents. -/
theorem apply_zpw (a b : ZMod p) :
    B.apply (zpw B.g1 a) (zpw B.g2 b) = zpw B.gpairing (a * b) := by
  rw [zpw_mul]
  show B.apply (B.g1 ^ a.val) (B.g2 ^ b.val) = (B.apply B.g1 B.g2 ^ a.val) ^ b.val
  rw [B.apply_pow_left, B.apply_pow_right, ← pow_mul, ← pow_mul, Nat.mul_comm]

/-- Pairing with `g2` is injective on G1: the checks lose no information. -/
theorem apply_g2_inj {a b : G1} : B.apply a B.g2 = B.apply b B.g2 ↔ a = b := by
  constructor
  · intro h
    obtain ⟨x, rfl⟩ := B.gen1 a
    obtain ⟨y, rfl⟩ := B.gen1 b
    rw [apply_zpw_g2, apply_zpw_g2, zpw_inj B.gpairing_ne_one] at h
    rw [h]
  · intro h
    rw [h]

end PrimeOrder

end BilinearGroup

/-! ## The smallest instance -/

section Product

variable (p : ℕ) [Fact p.Prime]

theorem zpw_ofAdd_one (a : ZMod p) : zpw (Multiplicative.ofAdd (1 : ZMod p)) a = .ofAdd a := by
  rw [zpw, ← ofAdd_nsmul, nsmul_one, ZMod.natCast_zmod_val]

/-- The integers mod `p`, written multiplicatively, with the product as pairing. -/
def productPairing : BilinearGroup p (Multiplicative (ZMod p)) (Multiplicative (ZMod p))
    (Multiplicative (ZMod p)) where
  g1 := .ofAdd 1
  g2 := .ofAdd 1
  apply a b := .ofAdd (a.toAdd * b.toAdd)
  gen1 x := ⟨x.toAdd, (zpw_ofAdd_one p _).symm⟩
  gen2 x := ⟨x.toAdd, (zpw_ofAdd_one p _).symm⟩
  apply_mul_left a b c := by rw [toAdd_mul, add_mul, ofAdd_add]
  apply_mul_right a b c := by rw [toAdd_mul, mul_add, ofAdd_add]
  nondegenerate h := by
    have h' : (1 : ZMod p) * 1 = 0 := Multiplicative.ofAdd.injective h
    simp at h'

/-- The setup over it with `h1 = g1 ^ η`; elements are encoded by their residue. -/
def productSetup (η : ZMod p) : CryptimeleonSetup p (Multiplicative (ZMod p))
    (Multiplicative (ZMod p)) (Multiplicative (ZMod p)) where
  pairing := productPairing p
  h1 := .ofAdd η
  codec :=
    { json1 := fun x => [UInt8.ofNat x.toAdd.val]
      json2 := fun x => [UInt8.ofNat x.toAdd.val]
      unique1 := fun x => [UInt8.ofNat x.toAdd.val]
      unique2 := fun x => [UInt8.ofNat x.toAdd.val]
      uniqueT := fun x => [UInt8.ofNat x.toAdd.val]
      sha256 := fun bytes => bytes }

end Product

/-- The modulus of the small instances. -/
instance fact_prime_five : Fact (Nat.Prime 5) := ⟨by norm_num⟩

/-! The numerals of the small instances. -/

instance atLeastTwo_two : Nat.AtLeastTwo 2 := ⟨le_refl 2⟩

instance atLeastTwo_three : Nat.AtLeastTwo 3 := ⟨by decide⟩

instance atLeastTwo_four : Nat.AtLeastTwo 4 := ⟨by decide⟩

end Dittor.Crypto

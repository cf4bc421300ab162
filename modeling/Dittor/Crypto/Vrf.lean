import Dittor.Crypto.Group

/-!
# The pseudonym function and the linkage proof (`crypto/vrf`)

`DodisYampolskiyVRF` turns a secret exponent `x` and a context into the
pseudonym `e(g1, g2)^{1/(x + H(context))}` with the proof `g1^{1/(x + H)}`;
`DLEQZKP` is a Fiat–Shamir proof that `g1x` and the public key in G2 hide one
exponent.

Both verifiers are stated once as equations between exponents
(`isValid_iff`, `verifyProof_zpw_iff`) and everything about the DA's checks is
derived from those: a public key `g2^y` has at most one accepted VRF result, it
has none when `y + H(context) = 0`, and an honest linkage proof passes for
every draw of its randomness.

`zp.getUniformlyRandomElement()` is an argument, and `inv()` of zero, which
throws, is `none`.
-/

namespace Dittor.Crypto

open Dittor.Lib

/-- `VRFResult`: the pseudonym and the proof of its correctness. -/
@[ext]
structure VRFResult (G1 GT : Type) where
  nym : GT
  zkp : G1
deriving DecidableEq

/-- `Proof`: a Fiat–Shamir transcript. -/
structure Proof (p : ℕ) where
  challenge : ZMod p
  response : ZMod p

/-- `ZnElement.inv()`; `none` when it throws. -/
def znInv {p : ℕ} (a : ZMod p) : Option (ZMod p) :=
  if a = 0 then none else some a⁻¹

theorem znInv_zero {p : ℕ} : znInv (0 : ZMod p) = none := if_pos rfl

theorem znInv_of_ne {p : ℕ} {a : ZMod p} (h : a ≠ 0) : znInv a = some a⁻¹ := if_neg h

section Code

variable {p : ℕ} {G1 G2 GT : Type} [CommGroup G1] [CommGroup G2] [CommGroup GT]
  (S : CryptimeleonSetup p G1 G2 GT)

/-- `DodisYampolskiyVRF.hashContext` -/
def hashContext (context : Text) : ZMod p :=
  (bigInteger (S.codec.sha256 (utf8Bytes context)) : ZMod p)

/-- `DodisYampolskiyVRF.buildProof` -/
def buildProof (secretKey : ZMod p) (context : Text) : Option (VRFResult G1 GT) :=
  (znInv (secretKey + hashContext S context)).map fun exponent =>
    { nym := zpw S.pairing.gpairing exponent, zkp := zpw S.pairing.g1 exponent }

/-- `DodisYampolskiyVRF.isValid` -/
def isValid [DecidableEq GT] (userPublicKeyG2 : G2) (context : Text)
    (result : VRFResult G1 GT) : Bool :=
  let hashedContext := hashContext S context
  let baseG2 := zpw S.pairing.g2 hashedContext * userPublicKeyG2
  decide (S.pairing.apply result.zkp baseG2 = S.pairing.gpairing)
    && decide (result.nym = S.pairing.apply result.zkp S.pairing.g2)

/-- `DLEQZKP.hashChallenge` -/
def hashChallenge (g1x : G1) (pk : G2) (r1 : G1) (r2 : G2) (context : Text) : ZMod p :=
  (bigInteger (S.codec.sha256 (S.codec.unique1 g1x ++ S.codec.unique2 pk
    ++ S.codec.unique1 r1 ++ S.codec.unique2 r2 ++ utf8Bytes context)) : ZMod p)

/-- `DLEQZKP.generateProof` with the draw `k`. -/
def generateProof (k secretX : ZMod p) (g1x : G1) (pk : G2) (context : Text) : Proof p :=
  let r1 := zpw S.pairing.g1 k
  let r2 := zpw S.pairing.g2 k
  let challenge := hashChallenge S g1x pk r1 r2 context
  { challenge := challenge, response := k + challenge * secretX }

/-- `DLEQZKP.verifyProof` -/
def verifyProof (g1x : G1) (pk : G2) (context : Text) (proof : Proof p) : Bool :=
  let r1 := zpw S.pairing.g1 proof.response * (zpw g1x proof.challenge)⁻¹
  let r2 := zpw S.pairing.g2 proof.response * (zpw pk proof.challenge)⁻¹
  decide (proof.challenge = hashChallenge S g1x pk r1 r2 context)

/-- `r1Reconstruct` of `DLEQZKP.verifyProof` -/
def r1Reconstruct (g1x : G1) (proof : Proof p) : G1 :=
  zpw S.pairing.g1 proof.response * (zpw g1x proof.challenge)⁻¹

/-- `r2Reconstruct` of `DLEQZKP.verifyProof` -/
def r2Reconstruct (pk : G2) (proof : Proof p) : G2 :=
  zpw S.pairing.g2 proof.response * (zpw pk proof.challenge)⁻¹

/-- The exponent of the pseudonym of `x` in a context. -/
def pseudonymExponent (x : ZMod p) (context : Text) : ZMod p := (x + hashContext S context)⁻¹

theorem buildProof_eq {x : ZMod p} {context : Text} (h : x + hashContext S context ≠ 0) :
    buildProof S x context = some
      { nym := zpw S.pairing.gpairing (pseudonymExponent S x context)
        zkp := zpw S.pairing.g1 (pseudonymExponent S x context) } := by
  unfold buildProof
  rw [znInv_of_ne h]
  rfl

theorem buildProof_eq_none {x : ZMod p} {context : Text} (h : x + hashContext S context = 0) :
    buildProof S x context = none := by
  unfold buildProof
  rw [h, znInv_zero, Option.map_none]

theorem ne_zero_of_buildProof {x : ZMod p} {context : Text} {r : VRFResult G1 GT}
    (h : buildProof S x context = some r) : x + hashContext S context ≠ 0 := by
  intro hzero
  rw [buildProof_eq_none S hzero] at h
  exact absurd h (by simp)

end Code

/-! ## The pseudonym -/

section Pseudonym

variable {p : ℕ} [Fact p.Prime] {G1 G2 GT : Type} [CommGroup G1] [CommGroup G2]
  [CommGroup GT] [ExpGroup p GT] (S : CryptimeleonSetup p G1 G2 GT)

/-- The pseudonym determines the identity within a context. -/
theorem pseudonym_inj {x y : ZMod p} {context : Text} :
    zpw S.pairing.gpairing (pseudonymExponent S x context)
      = zpw S.pairing.gpairing (pseudonymExponent S y context) ↔ x = y := by
  rw [zpw_inj S.pairing.gpairing_ne_one, pseudonymExponent, pseudonymExponent, inv_inj,
    add_left_inj]

variable [ExpGroup p G2]

/-- The first pairing check on the exponent of the proof. -/
theorem apply_base_iff (a y : ZMod p) (context : Text) :
    S.pairing.apply (zpw S.pairing.g1 a)
        (zpw S.pairing.g2 (hashContext S context) * zpw S.pairing.g2 y) = S.pairing.gpairing
      ↔ a * (y + hashContext S context) = 1 := by
  have hgen : S.pairing.gpairing = zpw S.pairing.gpairing (1 : ZMod p) := (zpw_one _).symm
  rw [← zpw_add, S.pairing.apply_zpw, add_comm]
  conv_lhs => rhs; rw [hgen]
  exact zpw_inj S.pairing.gpairing_ne_one

/-- **What the VRF check decides.** Under the public key `g2^y` exactly one
result passes, that of `y` itself, and none when `y + H(context) = 0`. -/
theorem isValid_iff [DecidableEq GT] (y : ZMod p) (context : Text) (r : VRFResult G1 GT) :
    isValid S (zpw S.pairing.g2 y) context r = true ↔
      y + hashContext S context ≠ 0
        ∧ r.zkp = zpw S.pairing.g1 (pseudonymExponent S y context)
        ∧ r.nym = zpw S.pairing.gpairing (pseudonymExponent S y context) := by
  obtain ⟨a, ha⟩ := S.pairing.gen1 r.zkp
  unfold isValid pseudonymExponent
  simp only [Bool.and_eq_true, decide_eq_true_eq]
  rw [ha, apply_base_iff, S.pairing.apply_zpw_g2]
  constructor
  · rintro ⟨hmul, hnym⟩
    have hne : y + hashContext S context ≠ 0 := right_ne_zero_of_mul_eq_one hmul
    have hexp : a = (y + hashContext S context)⁻¹ := eq_inv_of_mul_eq_one_left hmul
    rw [hexp] at hnym
    exact ⟨hne, by rw [hexp], hnym⟩
  · rintro ⟨hne, hzkp, hnym⟩
    -- the proof has the right exponent because powers of g1 determine it
    have hexp : a = (y + hashContext S context)⁻¹ := by
      have h := congrArg (fun z => S.pairing.apply z S.pairing.g2) hzkp
      simp only [S.pairing.apply_zpw_g2] at h
      exact (zpw_inj S.pairing.gpairing_ne_one).mp h
    rw [hexp]
    exact ⟨inv_mul_cancel₀ hne, hnym⟩

/-- **The verifier accepts exactly the prover's output.** Under `g2^x` the only
result that passes is the one `buildProof` returns for `x`; where the exponent
cannot be inverted nothing passes; and no two secrets share a pseudonym in one
context. -/
theorem vrf_accepts_prover_only [DecidableEq GT] (x : ZMod p) (context : Text) :
    (x + hashContext S context ≠ 0 → ∀ r : VRFResult G1 GT,
        isValid S (zpw S.pairing.g2 x) context r = true ↔ buildProof S x context = some r)
      ∧ (x + hashContext S context = 0 → ∀ r : VRFResult G1 GT,
        isValid S (zpw S.pairing.g2 x) context r = false)
      ∧ ∀ (x' : ZMod p) (r r' : VRFResult G1 GT), x ≠ x' → buildProof S x context = some r →
        buildProof S x' context = some r' → r.nym ≠ r'.nym := by
  refine ⟨?_, ?_, ?_⟩
  · intro hne r
    rw [isValid_iff, buildProof_eq S hne, Option.some.injEq, VRFResult.ext_iff]
    constructor
    · rintro ⟨-, hzkp, hnym⟩
      exact ⟨hnym.symm, hzkp.symm⟩
    · rintro ⟨hnym, hzkp⟩
      exact ⟨hne, hzkp.symm, hnym.symm⟩
  · intro hzero r
    rw [Bool.eq_false_iff, ne_eq, isValid_iff]
    rintro ⟨hne, -⟩
    exact hne hzero
  · intro x' r r' hx hr hr' hnym
    have hne := ne_zero_of_buildProof S hr
    have hne' := ne_zero_of_buildProof S hr'
    rw [buildProof_eq S hne, Option.some.injEq] at hr
    rw [buildProof_eq S hne', Option.some.injEq] at hr'
    rw [← hr, ← hr'] at hnym
    exact hx ((pseudonym_inj S).mp hnym)

end Pseudonym

/-- Over `ZMod 5`, in the context "" with `H = 0`: the secret 1 has the result with
exponent `1⁻¹ = 1`, which passes, and the secret 0 has none. -/
theorem vrf_accepts_prover_one :
    isValid (productSetup 5 2) (zpw (productSetup 5 2).pairing.g2 (1 : ZMod 5)) []
        ⟨.ofAdd 1, .ofAdd 1⟩ = true
      ∧ isValid (productSetup 5 2) (zpw (productSetup 5 2).pairing.g2 (0 : ZMod 5)) []
        ⟨.ofAdd 1, .ofAdd 1⟩ = false := by
  have hne : (1 : ZMod 5) + hashContext (productSetup 5 2) [] ≠ 0 := by decide
  have hexp : pseudonymExponent (productSetup 5 2) (1 : ZMod 5) [] = 1 := by
    rw [pseudonymExponent, show (1 : ZMod 5) + hashContext (productSetup 5 2) [] = 1 by decide,
      inv_one]
  refine ⟨((vrf_accepts_prover_only (productSetup 5 2) 1 []).1 hne _).mpr ?_,
    (vrf_accepts_prover_only (productSetup 5 2) 0 []).2.1 (by decide) _⟩
  rw [buildProof_eq _ hne, hexp]
  decide

/-! ## The linkage proof -/

section Linkage

variable {p : ℕ} [Fact p.Prime] {G1 G2 GT : Type} [CommGroup G1] [CommGroup G2]
  [CommGroup GT] [ExpGroup p G1] [ExpGroup p G2] (S : CryptimeleonSetup p G1 G2 GT)

/-- The verifier on `g1x = g1^u` and `pk = g2^y`: the reconstructed
commitments are the powers by `response - u * challenge` and
`response - y * challenge`. -/
theorem verifyProof_zpw_iff (u y : ZMod p) (context : Text) (π : Proof p) :
    verifyProof S (zpw S.pairing.g1 u) (zpw S.pairing.g2 y) context π = true ↔
      π.challenge = hashChallenge S (zpw S.pairing.g1 u) (zpw S.pairing.g2 y)
        (zpw S.pairing.g1 (π.response - u * π.challenge))
        (zpw S.pairing.g2 (π.response - y * π.challenge)) context := by
  unfold verifyProof
  rw [decide_eq_true_eq, zpw_sub, zpw_sub, zpw_mul, zpw_mul]

/-- Completeness: the honest proof passes, whatever the draw. -/
theorem verifyProof_generateProof (k x : ZMod p) (context : Text) :
    verifyProof S (zpw S.pairing.g1 x) (zpw S.pairing.g2 x) context
      (generateProof S k x (zpw S.pairing.g1 x) (zpw S.pairing.g2 x) context) = true := by
  rw [verifyProof_zpw_iff]
  unfold generateProof
  dsimp only
  -- the response minus `x` times the challenge is the draw again
  rw [mul_comm, add_sub_cancel_right]

omit [Fact p.Prime] [ExpGroup p G1] [ExpGroup p G2] in
/-- What the verifier hashes are the two reconstructed commitments. -/
theorem verifyProof_eq (g1x : G1) (pk : G2) (context : Text) (π : Proof p) :
    verifyProof S g1x pk context π = decide (π.challenge
      = hashChallenge S g1x pk (r1Reconstruct S g1x π) (r2Reconstruct S pk π) context) := rfl

/-- **The linkage proof is complete and specially sound.** Every honest proof
passes, whatever the draw; and two transcripts of one statement with different
challenges and the same reconstructed commitments give, by division, an exponent
that is the logarithm of both `g1x` and the public key. -/
theorem dleq_complete_and_sound :
    (∀ (k x : ZMod p) (context : Text),
        verifyProof S (zpw S.pairing.g1 x) (zpw S.pairing.g2 x) context
          (generateProof S k x (zpw S.pairing.g1 x) (zpw S.pairing.g2 x) context) = true)
      ∧ ∀ (g1x : G1) (pk : G2) (π π' : Proof p),
        (∀ context, verifyProof S g1x pk context π = decide (π.challenge
          = hashChallenge S g1x pk (r1Reconstruct S g1x π) (r2Reconstruct S pk π) context))
        ∧ (π.challenge ≠ π'.challenge → r1Reconstruct S g1x π = r1Reconstruct S g1x π' →
          r2Reconstruct S pk π = r2Reconstruct S pk π' →
          let x := (π.response - π'.response) / (π.challenge - π'.challenge)
          g1x = zpw S.pairing.g1 x ∧ pk = zpw S.pairing.g2 x) := by
  refine ⟨verifyProof_generateProof S, ?_⟩
  intro g1x pk π π'
  refine ⟨fun context => verifyProof_eq S g1x pk context π, ?_⟩
  intro hc h1 h2
  exact ⟨(zpw_extract hc h1).symm, (zpw_extract hc h2).symm⟩

end Linkage

/-- Over `ZMod 5`, the statement of `x = 3`: the transcripts `(1, 4)` and `(2, 2)`
both reconstruct the commitment with exponent 1, and `(4 - 2) / (1 - 2)` is 3. -/
theorem dleq_extracts_three :
    verifyProof (productSetup 5 2) (zpw (productSetup 5 2).pairing.g1 (3 : ZMod 5))
        (zpw (productSetup 5 2).pairing.g2 (3 : ZMod 5)) []
        (generateProof (productSetup 5 2) 1 3 (zpw (productSetup 5 2).pairing.g1 (3 : ZMod 5))
          (zpw (productSetup 5 2).pairing.g2 (3 : ZMod 5)) []) = true
      ∧ zpw (productSetup 5 2).pairing.g1 (3 : ZMod 5)
        = zpw (productSetup 5 2).pairing.g1 (((4 : ZMod 5) - 2) / (1 - 2)) := by
  obtain ⟨hcomplete, hsound⟩ := dleq_complete_and_sound (productSetup 5 2)
  refine ⟨hcomplete 1 3 [], ?_⟩
  exact ((hsound (zpw (productSetup 5 2).pairing.g1 (3 : ZMod 5))
    (zpw (productSetup 5 2).pairing.g2 (3 : ZMod 5)) ⟨1, 4⟩ ⟨2, 2⟩).2 (by decide) (by decide)
    (by decide)).1

end Dittor.Crypto

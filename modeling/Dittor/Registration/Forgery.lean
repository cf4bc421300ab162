import Dittor.Registration.Protocol
import Dittor.Lib.Expression
import Mathlib.Tactic.LinearCombination

/-!
# Which requests pass without a credential of their own

The requester of this file computes with group elements: from the elements it
knows it derives a credential and a commitment by group operations and
exponentiation (`GroupExpr`), and everything else in its request is its own
choice. Two questions are settled exactly.

A holder of one credential `σ = g1^{x msk}` asks under another exponent `x'`,
with honest proofs for `x'`. The DA's checks are one equation between exponents
(`authorizes_derived_iff`), and it has solutions with `x' ≠ x`: `σ^a` is a
credential for `a x`, since nothing in the credential fixes the exponent that
was signed.

A requester without any signature composes `σ` and `g1x` from `g1`, `h1` and
`mpkG1`. Acceptance for *every* master secret is an identity between
polynomials in the secret of degree at most two, and its solutions contain the
request for the exponent zero, in which every element is neutral.
-/

namespace Dittor.Registration

open Dittor.Lib Dittor.Crypto

/-- The elements of G1 that everybody knows. -/
inductive PublicElement where
  | g1
  | h1
  | mpkG1
deriving DecidableEq

instance : Fintype PublicElement where
  elems := {.g1, .h1, .mpkG1}
  complete i := by cases i <;> decide

/-- What a credential holder starts from: `none` is the credential. -/
abbrev Known := Option PublicElement

section Elements

variable {p : ℕ} {G1 G2 GT : Type} [CommGroup G1] [CommGroup G2] [CommGroup GT]
  (S : CryptimeleonSetup p G1 G2 GT)

/-- The public elements under the master secret `m`. -/
def publicElement (m : ZMod p) : PublicElement → G1
  | .g1 => S.pairing.g1
  | .h1 => S.h1
  | .mpkG1 => zpw S.h1 m

/-- Their logarithms, when `h1 = g1^η`. -/
def publicLog (η m : ZMod p) : PublicElement → ZMod p
  | .g1 => 1
  | .h1 => η
  | .mpkG1 => η * m

/-- The elements of the holder of the credential of `x`. -/
def knownElement (x m : ZMod p) (i : Known) : G1 :=
  i.elim (zpw S.pairing.g1 (x * m)) (publicElement S m)

theorem sum_public (η m : ZMod p) (c : PublicElement → ZMod p) :
    ∑ i, c i * publicLog η m i = c .g1 + c .h1 * η + c .mpkG1 * (η * m) := by
  rw [show (Finset.univ : Finset PublicElement) = {.g1, .h1, .mpkG1} from rfl]
  simp only [Finset.mem_insert, Finset.mem_singleton, reduceCtorEq, or_self, not_false_eq_true,
    Finset.sum_insert, Finset.sum_singleton, publicLog, mul_one]
  ring

theorem exponent_public (η m : ZMod p) (e : GroupExpr p PublicElement) :
    e.exponent (publicLog η m)
      = e.coeff .g1 + e.coeff .h1 * η + e.coeff .mpkG1 * (η * m) := by
  rw [e.exponent_eq_sum, sum_public]

theorem exponent_known (η x m : ZMod p) (e : GroupExpr p Known) :
    e.exponent (fun i => i.elim (x * m) (publicLog η m))
      = e.coeff none * (x * m)
        + (e.coeff (some .g1) + e.coeff (some .h1) * η + e.coeff (some .mpkG1) * (η * m)) := by
  rw [e.exponent_eq_sum, Fintype.sum_option]
  exact congrArg _ (sum_public η m fun i => e.coeff (some i))

variable {S} [Fact p.Prime] [ExpGroup p G1] {η m : ZMod p}

theorem publicElement_eq (hη : S.h1 = zpw S.pairing.g1 η) (i : PublicElement) :
    publicElement S m i = zpw S.pairing.g1 (publicLog η m i) := by
  cases i with
  | g1 => exact (zpw_one _).symm
  | h1 => exact hη
  | mpkG1 => rw [publicElement, publicLog, hη, zpw_mul]

theorem knownElement_eq (hη : S.h1 = zpw S.pairing.g1 η) (x : ZMod p) (i : Known) :
    knownElement S x m i = zpw S.pairing.g1 (i.elim (x * m) (publicLog η m)) := by
  cases i with
  | none => rfl
  | some i => exact publicElement_eq hη i

end Elements

/-! ## One credential, several identities -/

section Reuse

variable {p : ℕ} [Fact p.Prime] {G1 G2 GT : Type} [CommGroup G1] [CommGroup G2]
  [CommGroup GT] [ExpGroup p G1] [ExpGroup p G2] [ExpGroup p GT] [DecidableEq GT]
  {S : CryptimeleonSetup p G1 G2 GT} {η m : ZMod p}

/-- The DA's checks on a derived credential: one equation between exponents. -/
theorem authorizes_derived_iff (hη : S.h1 = zpw S.pairing.g1 η) {da : DA G2}
    (hm : da.mpkG2 = zpw S.pairing.g2 m) (x : ZMod p) (e : GroupExpr p Known) {u' : User p}
    {k : ZMod p} {context nodeId : Text} {ids : List Text} {msg : RegisterRelayMsg p G1 G2 GT}
    (h : honestRegistration S u' k (e.eval (knownElement S x m)) context nodeId ids = some msg) :
    authorizes S da msg = true ↔
      e.coeff none * (x * m)
          + (e.coeff (some .g1) + e.coeff (some .h1) * η + e.coeff (some .mpkG1) * (η * m))
        = u'.secretX * m := by
  rw [authorizes_honest_iff S hm h, e.eval_zpw S.pairing.g1 (knownElement_eq hη x),
    zpw_inj S.pairing.g1_ne_one, exponent_known]

/-- **When one credential supports one identity.** The holder of the credential of
`x` derives another credential from it and asks under `x'`. Acceptance forces
`x' = x` exactly if `x'` is `x`, or has no pseudonym in the context, or the
derivation misses the exponent `x' msk`. Every power `σ^a` hits it, for
`x' = a x`. -/
theorem derived_credential_one_identity (hη : S.h1 = zpw S.pairing.g1 η) (R : Registrations)
    (m : ZMod p) (u u' : User p) (k : ZMod p) (e : GroupExpr p Known) (context nodeId : Text)
    (ids : List Text) :
    (∀ msg : RegisterRelayMsg p G1 G2 GT,
        honestRegistration S u' k (e.eval (knownElement S u.secretX m)) context nodeId ids = some msg →
        authorizes S ⟨zpw S.pairing.g2 m, R⟩ msg = true → u'.secretX = u.secretX)
      ↔ u'.secretX = u.secretX ∨ u'.secretX + hashContext S context = 0
        ∨ e.coeff none * (u.secretX * m)
            + (e.coeff (some .g1) + e.coeff (some .h1) * η + e.coeff (some .mpkG1) * (η * m))
          ≠ u'.secretX * m := by
  constructor
  · intro hone
    by_cases hne : u'.secretX + hashContext S context = 0
    · exact .inr (.inl hne)
    · -- the message exists, so either it is refused or the exponents agree
      obtain ⟨msg, hmsg⟩ := honestRegistration_isSome S k
        (e.eval (knownElement S u.secretX m)) nodeId ids hne
      by_cases hexp : e.coeff none * (u.secretX * m)
          + (e.coeff (some .g1) + e.coeff (some .h1) * η + e.coeff (some .mpkG1) * (η * m))
          = u'.secretX * m
      · exact .inl (hone msg hmsg ((authorizes_derived_iff hη rfl _ e hmsg).mpr hexp))
      · exact .inr (.inr hexp)
  · rintro (hx | hz | hexp) msg hmsg hacc
    · exact hx
    · exact absurd hz (honestRegistration_eq_some S hmsg).1
    · exact absurd ((authorizes_derived_iff hη rfl _ e hmsg).mp hacc) hexp

end Reuse

/-- The unchanged credential of `x = 1` is of no use under `x' = 2`. -/
theorem derived_credential_one_identity_same :
    (productSetup 5 2).h1 = zpw (productSetup 5 2).pairing.g1 (2 : ZMod 5)
      ∧ ∀ msg, honestRegistration (productSetup 5 2) ⟨2, 0⟩ 4
          ((GroupExpr.base none : GroupExpr 5 Known).eval (knownElement (productSetup 5 2) 1 3))
          torContext "b".toList [] = some msg →
        authorizes (productSetup 5 2) ⟨zpw (productSetup 5 2).pairing.g2 (3 : ZMod 5), ∅⟩ msg = true →
        (2 : ZMod 5) = 1 := by
  have hη : (productSetup 5 2).h1 = zpw (productSetup 5 2).pairing.g1 (2 : ZMod 5) :=
    (zpw_ofAdd_one 5 2).symm
  refine ⟨hη, ?_⟩
  exact (derived_credential_one_identity hη ∅ 3 ⟨1, 0⟩ ⟨2, 0⟩ 4 (.base none)
    torContext "b".toList []).mpr (.inr (.inr (by decide)))

/-- The credential multiplied by itself. -/
def squaredCredential (p : ℕ) : GroupExpr p Known := .op (.base none) (.base none)

/-- The square of the credential of `x = 1` is accepted for `x' = 2`, in the same
context and under another pseudonym. -/
theorem squared_credential_accepted :
    ∃ msg msg' : RegisterRelayMsg 5 (Multiplicative (ZMod 5)) (Multiplicative (ZMod 5))
        (Multiplicative (ZMod 5)),
      honestRegistration (productSetup 5 2) ⟨1, 0⟩ 3
          (knownElement (productSetup 5 2) 1 3 none) torContext "a".toList [] = some msg
        ∧ honestRegistration (productSetup 5 2) ⟨2, 0⟩ 4
          ((squaredCredential 5).eval (knownElement (productSetup 5 2) 1 3))
          torContext "b".toList [] = some msg'
        ∧ authorizes (productSetup 5 2) ⟨zpw (productSetup 5 2).pairing.g2 (3 : ZMod 5), ∅⟩ msg = true
        ∧ authorizes (productSetup 5 2) ⟨zpw (productSetup 5 2).pairing.g2 (3 : ZMod 5), ∅⟩ msg' = true
        ∧ msg.vrfData.nym ≠ msg'.vrfData.nym := by
  obtain ⟨msg, hmsg⟩ := honestRegistration_isSome (productSetup 5 2) (u := ⟨1, 0⟩) 3
    (knownElement (productSetup 5 2) 1 3 none) "a".toList []
    (show 1 + hashContext (productSetup 5 2) torContext ≠ 0 by decide)
  obtain ⟨msg', hmsg'⟩ := honestRegistration_isSome (productSetup 5 2) (u := ⟨2, 0⟩) 4
    ((squaredCredential 5).eval (knownElement (productSetup 5 2) 1 3)) "b".toList []
    (show 2 + hashContext (productSetup 5 2) torContext ≠ 0 by decide)
  refine ⟨msg, msg', hmsg, hmsg', ?_, ?_, ?_⟩
  · exact (authorizes_honest_iff _ rfl hmsg).mpr rfl
  · have hη : (productSetup 5 2).h1 = zpw (productSetup 5 2).pairing.g1 (2 : ZMod 5) :=
      (zpw_ofAdd_one 5 2).symm
    exact (authorizes_derived_iff hη rfl _ _ hmsg').mpr (by decide)
  · obtain ⟨-, rfl⟩ := honestRegistration_eq_some _ hmsg
    obtain ⟨-, rfl⟩ := honestRegistration_eq_some _ hmsg'
    intro hnym
    have h12 : (1 : ZMod 5) = 2 := (pseudonym_inj (productSetup 5 2)).mp hnym
    exact absurd h12 (by decide)

/-! ## Requests without any signature -/

section Unissued

variable {p : ℕ} {G1 G2 GT : Type} [CommGroup G1] [CommGroup G2] [CommGroup GT]
  (S : CryptimeleonSetup p G1 G2 GT)

/-- A request whose credential and commitment are fixed products of powers of
the public elements. The rest of it may depend on the master public key in any
way, so it is a function of the master secret `m`; `y m` is the exponent of the
public key, of which every element of G2 has one. -/
def unissuedRequest (σ g1x : GroupExpr p PublicElement) (y : ZMod p → ZMod p)
    (vrf : ZMod p → VRFResult G1 GT) (π : ZMod p → Proof p) (context nodeId : Text)
    (ids : List Text) (m : ZMod p) : RegisterRelayMsg p G1 G2 GT where
  userPublicKeyG2 := zpw S.pairing.g2 (y m)
  vrfData := vrf m
  credentialCommitmentG1 := g1x.eval (publicElement S m)
  credential := σ.eval (publicElement S m)
  dleqProof := π m
  context := context
  nodeId := nodeId
  familyIds := ids

variable [Fact p.Prime]

/-- A polynomial of degree two that vanishes everywhere is zero. -/
theorem quadratic_eq_zero (hp : 2 < p) {a b c : ZMod p} (h : ∀ m : ZMod p, a + b * m + c * (m * m) = 0) :
    a = 0 ∧ b = 0 ∧ c = 0 := by
  have h0 : a = 0 := by simpa using h 0
  have h1 : a + b + c = 0 := by simpa using h 1
  have h2 : a - b + c = 0 := by simpa [sub_eq_add_neg] using h (-1)
  have htwo : (2 : ZMod p) ≠ 0 := by
    intro h
    have hdvd : p ∣ 2 := (ZMod.natCast_eq_zero_iff 2 p).mp (by exact_mod_cast h)
    exact absurd (Nat.le_of_dvd (by omega) hdvd) (by omega)
  have hb : b = 0 := by
    have h3 : 2 * b = 0 := by linear_combination h1 - h2
    exact (mul_eq_zero.mp h3).resolve_left htwo
  exact ⟨h0, hb, by linear_combination h1 - h0 - hb⟩

/-- The credential equation as an identity in the master secret: the constant
and the quadratic coefficient vanish and the linear ones agree. -/
theorem credential_identity_iff (hp : 2 < p) (η : ZMod p) (σ g1x : GroupExpr p PublicElement) :
    (∀ m, σ.exponent (publicLog η m) = g1x.exponent (publicLog η m) * m) ↔
      σ.coeff .g1 + σ.coeff .h1 * η = 0 ∧ g1x.coeff .mpkG1 * η = 0
        ∧ g1x.coeff .g1 + g1x.coeff .h1 * η = σ.coeff .mpkG1 * η := by
  simp only [exponent_public]
  constructor
  · intro h
    have hquad := quadratic_eq_zero hp (a := σ.coeff .g1 + σ.coeff .h1 * η)
      (b := σ.coeff .mpkG1 * η - (g1x.coeff .g1 + g1x.coeff .h1 * η))
      (c := -(g1x.coeff .mpkG1 * η)) fun m => by linear_combination h m
    obtain ⟨h0, h1, h2⟩ := hquad
    exact ⟨h0, neg_eq_zero.mp h2, (sub_eq_zero.mp h1).symm⟩
  · rintro ⟨h0, h2, h1⟩ m
    linear_combination h0 - m * h1 - m * m * h2

variable [ExpGroup p G1] [ExpGroup p G2] [ExpGroup p GT] [DecidableEq GT] {S} {η : ZMod p}

/-- **When there is no registration without issuance.** A request composed of
public elements is refused for some master secret exactly if its exponents do
not solve the three equations of the credential identity, or its VRF result is
not the one of its public key, or its linkage proof does not verify. -/
theorem unissued_request_refused (hp : 2 < p) (hη : S.h1 = zpw S.pairing.g1 η)
    (R : ZMod p → Registrations) (σ g1x : GroupExpr p PublicElement) (y : ZMod p → ZMod p)
    (vrf : ZMod p → VRFResult G1 GT) (π : ZMod p → Proof p) (context nodeId : Text)
    (ids : List Text) :
    (¬ ∀ m, authorizes S ⟨zpw S.pairing.g2 m, R m⟩
        (unissuedRequest S σ g1x y vrf π context nodeId ids m) = true)
      ↔ ¬ ((σ.coeff .g1 + σ.coeff .h1 * η = 0 ∧ g1x.coeff .mpkG1 * η = 0
          ∧ g1x.coeff .g1 + g1x.coeff .h1 * η = σ.coeff .mpkG1 * η)
        ∧ ∀ m, let u := g1x.coeff .g1 + g1x.coeff .h1 * η + g1x.coeff .mpkG1 * (η * m)
          y m + hashContext S context ≠ 0
            ∧ vrf m = { nym := zpw S.pairing.gpairing (y m + hashContext S context)⁻¹
                        zkp := zpw S.pairing.g1 (y m + hashContext S context)⁻¹ }
            ∧ (π m).challenge = hashChallenge S (zpw S.pairing.g1 u) (zpw S.pairing.g2 (y m))
                (zpw S.pairing.g1 ((π m).response - u * (π m).challenge))
                (zpw S.pairing.g2 ((π m).response - y m * (π m).challenge)) context) := by
  rw [not_iff_not, ← credential_identity_iff hp, ← forall_and]
  apply forall_congr'
  intro m
  have hcom : (unissuedRequest S σ g1x y vrf π context nodeId ids m).credentialCommitmentG1
      = zpw S.pairing.g1 (g1x.exponent (publicLog η m)) := g1x.eval_zpw _ (publicElement_eq hη)
  have hcred : (unissuedRequest S σ g1x y vrf π context nodeId ids m).credential
      = zpw S.pairing.g1 (σ.exponent (publicLog η m)) := σ.eval_zpw _ (publicElement_eq hη)
  rw [authorizes_iff S rfl rfl hcom, hcred, zpw_inj S.pairing.g1_ne_one, verifyProof_zpw_iff,
    exponent_public η m g1x]
  show (_ ∧ (vrf m).zkp = _ ∧ (vrf m).nym = _) ∧ _ ↔ _
  constructor
  · rintro ⟨⟨hne, hzkp, hnym⟩, hπ, hσ⟩
    exact ⟨hσ, hne, VRFResult.ext hnym hzkp, hπ⟩
  · rintro ⟨hσ, hne, hvrf, hπ⟩
    rw [hvrf]
    exact ⟨⟨hne, rfl, rfl⟩, hπ, hσ⟩

end Unissued

/-- Taking `g1` for the credential and for the commitment fails for some master secret. -/
theorem unissued_request_refused_g1 :
    (productSetup 5 2).h1 = zpw (productSetup 5 2).pairing.g1 (2 : ZMod 5)
      ∧ ¬ ∀ m : ZMod 5, authorizes (productSetup 5 2) ⟨zpw (productSetup 5 2).pairing.g2 m, ∅⟩
        (unissuedRequest (productSetup 5 2) (.base .g1) (.base .g1) (fun _ => 1) (fun _ => ⟨1, 1⟩)
          (fun _ => ⟨0, 0⟩) torContext "node".toList [] m) = true := by
  have hη : (productSetup 5 2).h1 = zpw (productSetup 5 2).pairing.g1 (2 : ZMod 5) :=
    (zpw_ofAdd_one 5 2).symm
  refine ⟨hη, ?_⟩
  exact (unissued_request_refused (by decide) hη (fun _ => ∅) (.base .g1) (.base .g1) (fun _ => 1)
    (fun _ => ⟨1, 1⟩) (fun _ => ⟨0, 0⟩) torContext "node".toList []).mpr
    fun h => absurd h.1.1 (by decide)

/-- The proofs of the exponent zero. -/
def neutralRequest {p : ℕ} {G1 G2 GT : Type} [CommGroup G1] [CommGroup G2] [CommGroup GT]
    (S : CryptimeleonSetup p G1 G2 GT) (k : ZMod p) (context nodeId : Text) (ids : List Text) :
    ZMod p → RegisterRelayMsg p G1 G2 GT :=
  unissuedRequest S .one .one (fun _ => 0)
    (fun _ => ⟨zpw S.pairing.gpairing (0 + hashContext S context)⁻¹,
      zpw S.pairing.g1 (0 + hashContext S context)⁻¹⟩)
    (fun _ => generateProof S k 0 (zpw S.pairing.g1 (0 : ZMod p)) (zpw S.pairing.g2 (0 : ZMod p))
      context)
    context nodeId ids

/-- The request of the exponent zero consists of neutral elements and is accepted
under every master secret. -/
theorem neutral_request_accepted :
    (∀ m : ZMod 5,
      (neutralRequest (productSetup 5 2) 3 torContext "node".toList [] m).userPublicKeyG2 = 1
        ∧ (neutralRequest (productSetup 5 2) 3 torContext "node".toList [] m).credentialCommitmentG1 = 1
        ∧ (neutralRequest (productSetup 5 2) 3 torContext "node".toList [] m).credential = 1)
      ∧ ∀ m : ZMod 5, authorizes (productSetup 5 2) ⟨zpw (productSetup 5 2).pairing.g2 m, ∅⟩
        (neutralRequest (productSetup 5 2) 3 torContext "node".toList [] m) = true := by
  refine ⟨fun m => ⟨zpw_zero _, rfl, rfl⟩, fun m => ?_⟩
  have hone : (1 : Multiplicative (ZMod 5)) = zpw (productSetup 5 2).pairing.g1 (0 : ZMod 5) :=
    (zpw_zero _).symm
  rw [authorizes_iff (productSetup 5 2) rfl rfl hone]
  have hctx : (0 : ZMod 5) + hashContext (productSetup 5 2) torContext ≠ 0 := by decide
  refine ⟨⟨hctx, rfl, rfl⟩, verifyProof_generateProof (productSetup 5 2) 3 0 torContext, ?_⟩
  rw [zero_mul]
  exact hone

end Dittor.Registration

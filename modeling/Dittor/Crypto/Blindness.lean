import Dittor.Crypto.CA
import Dittor.Crypto.User

/-!
# Issuance is blind

What the CAs see of an issuance is the commitment of the request and the shares
they return on it (`issuanceView`). A Pedersen commitment has, for every identity
exponent, exactly one blinding factor that opens it to that identity
(`existsUnique_blinding`), because `h1` generates the group; and the view is a
function of the commitment alone. So the run of any other identity that sends the
same commitment is the same run for the CAs, and it ends with the valid credential
of that identity (`issuance_completes`).
-/

namespace Dittor.Crypto

open Dittor.Lib

section View

variable {p : ℕ} {G1 G2 GT : Type} [CommGroup G1] [CommGroup G2] [CommGroup GT]
  (S : CryptimeleonSetup p G1 G2 GT)

/-- What the CAs `ids` see and say in one issuance: the blinded commitment of the
request and their shares on it, `none` when one has no key share yet. -/
def issuanceView (cas : ℤ → CA p G1 G2) (ids : List ℤ) (u : User p) : G1 × Option (List G1) :=
  let blindedCommit := u.createBlindedCommit S.pairing.g1 S.h1
  (blindedCommit, ids.mapM fun j => (cas j).issueSignatureShare blindedCommit)

/-- The CAs hold the shares of `F` and the master keys of `F(0)`. -/
structure KeysOf (F : Polynomial (ZMod p)) (ca : CA p G1 G2) (j : ℤ) : Prop where
  share : ca.secretKeyShare = some (F.eval (j : ZMod p))
  mpkG1 : ca.masterPubKeyG1 = some (zpw S.h1 (F.eval 0))
  mpkG2 : ca.masterPubKeyG2 = some (zpw S.pairing.g2 (F.eval 0))

/-- The commitment is all the view depends on. -/
theorem issuanceView_eq_iff (cas : ℤ → CA p G1 G2) (ids : List ℤ) (u u' : User p) :
    issuanceView S cas ids u = issuanceView S cas ids u' ↔
      u.createBlindedCommit S.pairing.g1 S.h1 = u'.createBlindedCommit S.pairing.g1 S.h1 := by
  constructor
  · intro h
    exact congrArg Prod.fst h
  · intro h
    unfold issuanceView
    rw [h]

end View

section Blind

variable {p : ℕ} [Fact p.Prime] {G1 G2 GT : Type} [CommGroup G1] [CommGroup G2] [CommGroup GT]
  [ExpGroup p G1] (S : CryptimeleonSetup p G1 G2 GT)

/-- Every element of G1 opens to every identity, with one blinding factor. -/
theorem existsUnique_blinding (hh1 : IsGenerator p S.h1) (C : G1) (x : ZMod p) :
    ∃! r : ZMod p, (User.mk x r).createBlindedCommit S.pairing.g1 S.h1 = C := by
  -- a generator of a group with `g1 ≠ 1` in it is not the neutral element
  have hne : S.h1 ≠ 1 := by
    intro h
    obtain ⟨a, ha⟩ := hh1 S.pairing.g1
    rw [h, one_zpw] at ha
    exact S.pairing.g1_ne_one ha
  obtain ⟨r, hr⟩ := hh1 ((zpw S.pairing.g1 x)⁻¹ * C)
  have hiff : ∀ r', (User.mk x r').createBlindedCommit S.pairing.g1 S.h1 = C ↔ r' = r := by
    intro r'
    unfold User.createBlindedCommit
    rw [← eq_inv_mul_iff_mul_eq, hr, zpw_inj hne]
  exact ⟨r, (hiff r).mpr rfl, fun r' h => (hiff r').mp h⟩

/-- The number of blinding factors under which the CAs see the view of `u`. -/
theorem card_blinding (hh1 : IsGenerator p S.h1) (cas : ℤ → CA p G1 G2) (ids : List ℤ)
    (u : User p) (x : ZMod p) :
    Nat.card {r : ZMod p // issuanceView S cas ids ⟨x, r⟩ = issuanceView S cas ids u} = 1 := by
  obtain ⟨r, hr, huniq⟩ :=
    existsUnique_blinding S hh1 (u.createBlindedCommit S.pairing.g1 S.h1) x
  rw [Nat.card_eq_one_iff_exists]
  refine ⟨⟨r, (issuanceView_eq_iff S cas ids _ u).mpr hr⟩, ?_⟩
  rintro ⟨r', hr'⟩
  exact Subtype.ext (huniq r' ((issuanceView_eq_iff S cas ids _ u).mp hr'))

omit [ExpGroup p G1] in
/-- The shares the CAs return on a commitment. -/
theorem mapM_issueSignatureShare {F : Polynomial (ZMod p)} {cas : ℤ → CA p G1 G2} (C : G1) :
    ∀ {ids : List ℤ}, (∀ j ∈ ids, KeysOf S F (cas j) j) →
      (ids.mapM fun j => (cas j).issueSignatureShare C)
        = some (ids.map fun j : ℤ => zpw C (F.eval (j : ZMod p))) := by
  intro ids
  induction ids with
  | nil => intro _; rfl
  | cons j ids ih =>
    intro hkeys
    have hj : (cas j).issueSignatureShare C = some (zpw C (F.eval (j : ZMod p))) := by
      rw [CA.issueSignatureShare, (hkeys j List.mem_cons_self).share, Option.map_some]
    rw [List.mapM_cons, hj, ih fun k hk => hkeys k (List.mem_cons_of_mem j hk)]
    rfl

variable [ExpGroup p GT]

/-- A user whose commitment the CAs sign ends with its own valid credential. -/
theorem issuance_completes [DecidableEq GT] {F : Polynomial (ZMod p)} {ids : List ℤ}
    (hnd : ids.Nodup) (hids : ∀ j ∈ ids, 1 ≤ j ∧ j ≤ (p : ℤ) - 1)
    (hdeg : F.degree < (ids.length : WithBot ℕ)) {cas : ℤ → CA p G1 G2}
    (hkeys : ∀ j ∈ ids, KeysOf S F (cas j) j) (u : User p) :
    ∃ shares agg, issuanceView S cas ids u = (u.createBlindedCommit S.pairing.g1 S.h1, some shares)
      ∧ User.aggregateShares p shares ids = some agg
      ∧ u.unblindSignature agg (zpw S.h1 (F.eval 0)) = zpw S.pairing.g1 (u.secretX * F.eval 0)
      ∧ u.verifyCredential S (u.unblindSignature agg (zpw S.h1 (F.eval 0)))
        (zpw S.pairing.g2 (F.eval 0)) S.pairing.g1 S.pairing.g2 = true := by
  have hd : User.IdsDistinct p ids := User.idsDistinct_of_pos hids
  have hunblind := u.unblindSignature_eq S.pairing.g1 S.h1 (F.eval 0)
  refine ⟨_, _, ?_, User.aggregateShares_recover hd hnd hdeg
    (u.createBlindedCommit S.pairing.g1 S.h1), hunblind, ?_⟩
  · exact congrArg _ (mapM_issueSignatureShare S _ hkeys)
  · rw [u.verifyCredential_iff S]
    exact hunblind

/-- **Issuance is blind.** With `h1` a generator, the CAs' whole view of an
issuance (the commitment and every share they return) is consistent with as many
blinding factors under one identity as under any other, exactly one each. And for
every identity and every such blinding factor the very shares of the view
aggregate and unblind to the valid credential of that identity. -/
theorem issuance_blind [DecidableEq GT] {F : Polynomial (ZMod p)} {ids : List ℤ}
    (hnd : ids.Nodup) (hids : ∀ j ∈ ids, 1 ≤ j ∧ j ≤ (p : ℤ) - 1)
    (hdeg : F.degree < (ids.length : WithBot ℕ)) {cas : ℤ → CA p G1 G2}
    (hkeys : ∀ j ∈ ids, KeysOf S F (cas j) j) (u : User p) :
    let C := u.createBlindedCommit S.pairing.g1 S.h1
    (IsGenerator p S.h1 → ∀ x x' : ZMod p,
        Nat.card {r : ZMod p // (User.mk x r).createBlindedCommit S.pairing.g1 S.h1 = C} = 1
        ∧ Nat.card {r' : ZMod p // (User.mk x' r').createBlindedCommit S.pairing.g1 S.h1 = C} = 1
        ∧ Nat.card {r : ZMod p // issuanceView S cas ids ⟨x, r⟩ = issuanceView S cas ids u}
          = Nat.card {r' : ZMod p // issuanceView S cas ids ⟨x', r'⟩ = issuanceView S cas ids u})
      ∧ ∃ shares agg, issuanceView S cas ids u = (C, some shares)
        ∧ User.aggregateShares p shares ids = some agg
        ∧ ∀ x' r' : ZMod p, (User.mk x' r').createBlindedCommit S.pairing.g1 S.h1 = C →
          let σ := (User.mk x' r').unblindSignature agg (zpw S.h1 (F.eval 0))
          σ = zpw S.pairing.g1 (x' * F.eval 0)
            ∧ (User.mk x' r').verifyCredential S σ (zpw S.pairing.g2 (F.eval 0)) S.pairing.g1
              S.pairing.g2 = true := by
  intro C
  constructor
  · intro hh1 x x'
    have hview : ∀ y : ZMod p,
        Nat.card {r : ZMod p // (User.mk y r).createBlindedCommit S.pairing.g1 S.h1 = C} = 1 := by
      intro y
      have h := card_blinding S hh1 cas ids u y
      simpa only [issuanceView_eq_iff] using h
    refine ⟨hview x, hview x', ?_⟩
    rw [card_blinding S hh1 cas ids u x, card_blinding S hh1 cas ids u x']
  · obtain ⟨shares, agg, hshares, hagg, -⟩ := issuance_completes S hnd hids hdeg hkeys u
    refine ⟨shares, agg, hshares, hagg, ?_⟩
    intro x' r' hC
    -- the other identity meets the same view, so the same shares and the same aggregate
    obtain ⟨shares', agg', hshares', hagg', hsig, hvalid⟩ :=
      issuance_completes S hnd hids hdeg hkeys ⟨x', r'⟩
    have hview := (issuanceView_eq_iff S cas ids ⟨x', r'⟩ u).mpr hC
    rw [hview, hshares, hC, Prod.mk.injEq, Option.some.injEq] at hshares'
    rw [← hshares'.2, hagg, Option.some.injEq] at hagg'
    rw [← hagg'] at hsig hvalid
    exact ⟨hsig, hvalid⟩

end Blind

/-- The keys of the CA `j` after a key generation with `F = 3 + 2X` over `ZMod 5`. -/
def blindExampleCA (j : ℤ) : CA 5 (Multiplicative (ZMod 5)) (Multiplicative (ZMod 5)) where
  secretKeyShare := some (3 + 2 * (j : ZMod 5))
  masterPubKeyG1 := some (.ofAdd 1)
  masterPubKeyG2 := some (.ofAdd 3)

/-- The CAs 1 and 3 sign the commitment `4 = 1 + 2 * 4` of the identity 1. The
blinding factor 1 opens it to the identity 2, and their two shares are as good a
credential for that one. -/
theorem issuance_blind_two :
    Nat.card {r : ZMod 5 // issuanceView (productSetup 5 2) blindExampleCA [1, 3] ⟨1, r⟩
        = issuanceView (productSetup 5 2) blindExampleCA [1, 3] ⟨1, 4⟩}
      = Nat.card {r' : ZMod 5 // issuanceView (productSetup 5 2) blindExampleCA [1, 3] ⟨2, r'⟩
        = issuanceView (productSetup 5 2) blindExampleCA [1, 3] ⟨1, 4⟩}
      ∧ ∃ σ, (User.mk (2 : ZMod 5) 1).verifyCredential (productSetup 5 2) σ (.ofAdd 3) (.ofAdd 1)
        (.ofAdd 1) = true := by
  have h0 : (ofCoeffs [(3 : ZMod 5), 2]).eval 0 = 3 := by simp
  have hkeys : ∀ j ∈ ([1, 3] : List ℤ),
      KeysOf (productSetup 5 2) (ofCoeffs [(3 : ZMod 5), 2]) (blindExampleCA j) j := by
    intro j _
    refine ⟨?_, ?_, ?_⟩
    · simp [blindExampleCA, mul_comm]
    · rw [h0]
      show some (Multiplicative.ofAdd (1 : ZMod 5)) = _
      decide
    · rw [h0]
      show some (Multiplicative.ofAdd (3 : ZMod 5)) = _
      decide
  have hgen : IsGenerator 5 (productSetup 5 2).h1 := by
    unfold IsGenerator
    decide
  have hnd : ([1, 3] : List ℤ).Nodup := by decide
  obtain ⟨hcard, shares, agg, -, -, hother⟩ := issuance_blind (productSetup 5 2)
    hnd (by decide) (degree_ofCoeffs_lt [(3 : ZMod 5), 2]) hkeys ⟨1, 4⟩
  refine ⟨(hcard hgen 1 2).2.2, ?_⟩
  have hvalid := (hother 2 1 (by decide)).2
  rw [h0] at hvalid
  exact ⟨_, hvalid⟩

end Dittor.Crypto

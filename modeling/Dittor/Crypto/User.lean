import Dittor.Crypto.Vrf
import Dittor.Lib.Interpolation

/-!
# The cryptography of a relay operator (`User.java`)

A user holds a secret exponent `x` and a blinding factor `r`, has the Pedersen
commitment `g1^x h1^r` signed share by share, recombines the shares with the
Lagrange weights at zero (`aggregateShares`) and divides the blinding out
(`unblindSignature`).

The double loop of `aggregateShares` is kept: the inner one skips the entries
*equal* to the current id, so a repeated id would be skipped everywhere, and
the outer one reads `signerIDs.get(i)` for each share. `lagrange_eq` and
`aggregateLoop_eq` say what they compute on distinct ids; the reconstruction
itself is `aggregateShares_recover`, for any list of at least `deg + 1`
distinct ids in any order.
-/

namespace Dittor.Crypto

open Dittor.Lib

/-- The secrets drawn by the constructor of `User`. -/
structure User (p : ℕ) where
  secretX : ZMod p
  blindingFactor : ZMod p

namespace User

section Code

variable {p : ℕ} {G1 G2 GT : Type} [CommGroup G1] [CommGroup G2] [CommGroup GT]
  (S : CryptimeleonSetup p G1 G2 GT) (u : User p)

/-- `getPublicKeyG2`: the constructor sets `publicKeyG2 = g2^x`. -/
def getPublicKeyG2 : G2 := zpw S.pairing.g2 u.secretX

/-- `generateVRFPseudonym` -/
def generateVRFPseudonym (context : Text) : Option (VRFResult G1 GT) :=
  buildProof S u.secretX context

/-- `createBlindedCommit` -/
def createBlindedCommit (g h : G1) : G1 := zpw g u.secretX * zpw h u.blindingFactor

/-- `getCredentialCommitmentG1` -/
def getCredentialCommitmentG1 (g1 : G1) : G1 := zpw g1 u.secretX

/-- `generateDLEQProof` with the draw `k`. -/
def generateDLEQProof (k : ZMod p) (g1x : G1) (context : Text) : Proof p :=
  generateProof S k u.secretX g1x (u.getPublicKeyG2 S) context

/-- `unblindSignature` -/
def unblindSignature (aggregatedBlindedSignature masterPubKey : G1) : G1 :=
  aggregatedBlindedSignature * (zpw masterPubKey u.blindingFactor)⁻¹

/-- `verifyCredential` -/
def verifyCredential [DecidableEq GT] (unblindedSignature : G1) (mpk : G2) (g1 : G1)
    (g2 : G2) : Bool :=
  decide (S.pairing.apply unblindedSignature g2
    = S.pairing.apply (zpw g1 u.secretX) mpk)

end Code

section Aggregate

variable {p : ℕ} {G1 : Type} [CommGroup G1]

/-- The inner loop of `aggregateShares`: numerator and denominator of the weight. -/
def lagrange (signerIDs : List ℤ) (currentID : ℤ) : ZMod p × ZMod p :=
  signerIDs.foldl
    (fun acc j =>
      if j = currentID then acc
      else (acc.1 * -(j : ZMod p), acc.2 * ((currentID : ZMod p) - (j : ZMod p))))
    (1, 1)

/-- The outer loop, at the entries that are left of the two lists; `none` when
`signerIDs.get(i)` or the inverse throws. -/
def aggregateLoop (p : ℕ) (signerIDs : List ℤ) : List G1 → List ℤ → G1 → Option G1
  | [], _, acc => some acc
  | _ :: _, [], _ => none
  | share :: shares, currentID :: ids, acc =>
    let weight : ZMod p × ZMod p := lagrange signerIDs currentID
    (znInv weight.2).bind fun inv =>
      aggregateLoop p signerIDs shares ids (acc * zpw share (weight.1 * inv))

/-- `aggregateShares` -/
def aggregateShares (p : ℕ) (sigShares : List G1) (signerIDs : List ℤ) : Option G1 :=
  aggregateLoop p signerIDs sigShares signerIDs 1

end Aggregate

/-! ## Reconstruction in the exponent -/

section Recover

variable {p : ℕ} [Fact p.Prime]

/-- The inner loop from any accumulator: two products over the other ids. -/
theorem lagrange_foldl (i : ℤ) :
    ∀ (l : List ℤ) (acc : ZMod p × ZMod p),
      l.foldl (fun acc j =>
          if j = i then acc
          else (acc.1 * -(j : ZMod p), acc.2 * ((i : ZMod p) - (j : ZMod p)))) acc
        = (acc.1 * ((l.filter (· ≠ i)).map fun j : ℤ => -(j : ZMod p)).prod,
            acc.2 * ((l.filter (· ≠ i)).map fun j : ℤ => (i : ZMod p) - (j : ZMod p)).prod) := by
  intro l
  induction l with
  | nil => intro acc; simp
  | cons j l ih =>
    intro acc
    rw [List.foldl_cons, ih]
    by_cases hji : j = i
    · rw [if_pos hji, List.filter_cons_of_neg (by simpa using hji)]
    · rw [if_neg hji, List.filter_cons_of_pos (by simpa using hji)]
      simp only [List.map_cons, List.prod_cons, mul_assoc]

/-- The ids are distinct as exponents: what `1 ≤ id ≤ n < p` gives. -/
def IdsDistinct (p : ℕ) (ids : List ℤ) : Prop :=
  ∀ i ∈ ids, ∀ j ∈ ids, ((i : ZMod p) = (j : ZMod p)) → i = j

omit [Fact p.Prime] in
theorem idsDistinct_of_range {ids : List ℤ} {n : ℕ} (hn : n < p)
    (h : ∀ j ∈ ids, 1 ≤ j ∧ j ≤ n) : IdsDistinct p ids := by
  intro i hi j hj hij
  have hi' := h i hi
  have hj' := h j hj
  have hdvd : (p : ℤ) ∣ j - i := (ZMod.intCast_eq_intCast_iff_dvd_sub i j p).mp hij
  have hzero : j - i = 0 := by
    apply Int.eq_zero_of_abs_lt_dvd hdvd
    rw [abs_lt]
    omega
  omega

variable {ids : List ℤ} {i : ℤ}

/-- Ids in `1..p-1` are distinct as exponents. -/
theorem idsDistinct_of_pos (hids : ∀ j ∈ ids, 1 ≤ j ∧ j ≤ (p : ℤ) - 1) : IdsDistinct p ids := by
  have hpos : 0 < p := (Fact.out : p.Prime).pos
  refine idsDistinct_of_range (n := p - 1) (by omega) ?_
  intro j hj
  have := hids j hj
  omega

/-- Taking the other ids out commutes with the cast. -/
theorem filter_cast_ne (hd : IdsDistinct p ids) (hi : i ∈ ids) :
    (ids.map fun j : ℤ => (j : ZMod p)).filter (· ≠ (i : ZMod p))
      = (ids.filter (· ≠ i)).map fun j : ℤ => (j : ZMod p) := by
  rw [List.filter_map]
  congr 1
  apply List.filter_congr
  intro j hj
  have hiff : (j : ZMod p) = (i : ZMod p) ↔ j = i :=
    ⟨fun h => hd j hj i hi h, fun h => by rw [h]⟩
  simp [hiff]

/-- Numerator over denominator is the Lagrange weight at zero, and the
denominator is invertible. -/
theorem lagrange_eq (hd : IdsDistinct p ids) (hi : i ∈ ids) :
    (lagrange ids i : ZMod p × ZMod p).2 ≠ 0 ∧
      (lagrange ids i : ZMod p × ZMod p).1 * (lagrange ids i : ZMod p × ZMod p).2⁻¹
        = weightAtZero (ids.map fun j : ℤ => (j : ZMod p)) (i : ZMod p) := by
  unfold lagrange
  rw [lagrange_foldl]
  simp only [one_mul]
  constructor
  · apply List.prod_ne_zero
    intro h0
    obtain ⟨j, hj, hsub⟩ := List.mem_map.mp h0
    obtain ⟨hmem, hne⟩ := List.mem_filter.mp hj
    have hij : i = j := hd i hi j hmem (sub_eq_zero.mp hsub)
    simp [hij] at hne
  · unfold weightAtZero
    rw [filter_cast_ne hd hi, List.map_map, List.map_map]
    rfl

variable {G1 : Type} [CommGroup G1]

/-- The outer loop over the rest of the ids, each with its share. -/
theorem aggregateLoop_eq (hd : IdsDistinct p ids) (share : ℤ → G1) :
    ∀ (rest : List ℤ) (acc : G1), (∀ j ∈ rest, j ∈ ids) →
      aggregateLoop p ids (rest.map share) rest acc
        = some (acc * (rest.map fun j => zpw (share j)
            (weightAtZero (ids.map fun j : ℤ => (j : ZMod p)) (j : ZMod p))).prod) := by
  intro rest
  induction rest with
  | nil => intro acc _; simp [aggregateLoop]
  | cons j rest ih =>
    intro acc hsub
    obtain ⟨hne, hw⟩ := lagrange_eq hd (hsub j List.mem_cons_self)
    rw [List.map_cons, aggregateLoop]
    simp only [znInv_of_ne hne, Option.bind_some, hw]
    rw [ih _ fun k hk => hsub k (List.mem_cons_of_mem j hk), List.map_cons, List.prod_cons,
      mul_assoc]

/-- **Reconstruction.** The aggregate of the shares `C^{F(j)}` over distinct ids,
in any order, is `C^{F(0)}` when there are more ids than the degree of `F`. -/
theorem aggregateShares_recover [ExpGroup p G1] (hd : IdsDistinct p ids) (hnd : ids.Nodup)
    {F : Polynomial (ZMod p)} (hdeg : F.degree < (ids.length : WithBot ℕ)) (C : G1) :
    aggregateShares p (ids.map fun j : ℤ => zpw C (F.eval (j : ZMod p))) ids
      = some (zpw C (F.eval 0)) := by
  have hpoints : (ids.map fun j : ℤ => (j : ZMod p)).Nodup :=
    hnd.map_on fun i hi j hj => hd i hi j hj
  have hrec := weights_recover hpoints (f := F) (by rw [List.length_map]; exact hdeg)
  rw [List.map_map] at hrec
  unfold aggregateShares
  rw [aggregateLoop_eq hd _ ids 1 fun _ h => h, one_mul]
  congr 1
  -- every factor is a power of `C`, so the product is the power by the weighted sum
  calc (ids.map fun j : ℤ => zpw (zpw C (F.eval (j : ZMod p)))
          (weightAtZero (ids.map fun j : ℤ => (j : ZMod p)) (j : ZMod p))).prod
      = (ids.map fun j : ℤ => zpw C (weightAtZero (ids.map fun j : ℤ => (j : ZMod p))
          (j : ZMod p) * F.eval (j : ZMod p))).prod := by
        simp only [← zpw_mul, mul_comm]
    _ = zpw C (F.eval 0) := by
        rw [prod_zpw]
        exact congrArg (zpw C) hrec

/-- The aggregate of any shares is a function of the set of signers. -/
theorem aggregateShares_perm (hd : IdsDistinct p ids) {ids' : List ℤ} (hperm : ids'.Perm ids)
    (share : ℤ → G1) :
    aggregateShares p (ids'.map share) ids' = aggregateShares p (ids.map share) ids := by
  have hd' : IdsDistinct p ids' := by
    intro i hi j hj hij
    exact hd i (hperm.mem_iff.mp hi) j (hperm.mem_iff.mp hj) hij
  have hweight : ∀ x : ZMod p, weightAtZero (ids'.map fun j : ℤ => (j : ZMod p)) x
      = weightAtZero (ids.map fun j : ℤ => (j : ZMod p)) x :=
    weightAtZero_perm (hperm.map _)
  unfold aggregateShares
  rw [aggregateLoop_eq hd' share ids' 1 fun _ h => h, aggregateLoop_eq hd share ids 1 fun _ h => h]
  simp only [hweight]
  rw [(hperm.map _).prod_eq]

/-- **Lagrange aggregation reconstructs the secret power.** For every base, every
polynomial of degree below the number of signers and every list of distinct ids
in `1..p-1`: the aggregate of the shares `B^{f(i)}` is `B^{f(0)}`. Listing the
signers in another order changes nothing, whatever their shares are. -/
theorem aggregateShares_reconstructs [ExpGroup p G1] (hnd : ids.Nodup)
    (hids : ∀ j ∈ ids, 1 ≤ j ∧ j ≤ (p : ℤ) - 1) {f : Polynomial (ZMod p)}
    (hdeg : f.degree < (ids.length : WithBot ℕ)) (B : G1) :
    aggregateShares p (ids.map fun i : ℤ => zpw B (f.eval (i : ZMod p))) ids
        = some (zpw B (f.eval 0))
      ∧ ∀ ids' : List ℤ, ids'.Perm ids →
        (aggregateShares p (ids'.map fun i : ℤ => zpw B (f.eval (i : ZMod p))) ids'
            = some (zpw B (f.eval 0)))
          ∧ ∀ share : ℤ → G1,
            aggregateShares p (ids'.map share) ids' = aggregateShares p (ids.map share) ids := by
  have hd : IdsDistinct p ids := idsDistinct_of_pos hids
  have hrec := aggregateShares_recover hd hnd hdeg B
  refine ⟨hrec, ?_⟩
  intro ids' hperm
  refine ⟨?_, aggregateShares_perm hd hperm⟩
  rw [aggregateShares_perm hd hperm, hrec]

end Recover

/-- `f = 3 + 2X` over `ZMod 5` with the signers 1 and 3 and the shares `B^0` and
`B^4`: the aggregate is `B^3`, in either order. -/
theorem aggregateShares_two_signers :
    aggregateShares 5 [Multiplicative.ofAdd (0 : ZMod 5), .ofAdd 4] [1, 3] = some (.ofAdd 3)
      ∧ aggregateShares 5 [Multiplicative.ofAdd (4 : ZMod 5), .ofAdd 0] [3, 1]
        = some (.ofAdd 3) := by
  have h0 : (ofCoeffs [(3 : ZMod 5), 2]).eval 0 = 3 := by simp
  have h1 : (ofCoeffs [(3 : ZMod 5), 2]).eval ((1 : ℤ) : ZMod 5) = 0 := by
    simp only [eval_ofCoeffs_cons, eval_ofCoeffs_nil]
    decide
  have h3 : (ofCoeffs [(3 : ZMod 5), 2]).eval ((3 : ℤ) : ZMod 5) = 4 := by
    simp only [eval_ofCoeffs_cons, eval_ofCoeffs_nil]
    decide
  have hnd : ([1, 3] : List ℤ).Nodup := by decide
  obtain ⟨hrec, hperm⟩ := aggregateShares_reconstructs (p := 5) hnd
    (by decide) (degree_ofCoeffs_lt [(3 : ZMod 5), 2]) (Multiplicative.ofAdd (1 : ZMod 5))
  have hrev := (hperm [3, 1] (by decide)).1
  simp only [List.map_cons, List.map_nil, h0, h1, h3, zpw_ofAdd_one] at hrec hrev
  exact ⟨hrec, hrev⟩

/-! ## Unblinding -/

section Unblind

variable {p : ℕ} [Fact p.Prime] {G1 G2 GT : Type} [CommGroup G1] [CommGroup G2]
  [CommGroup GT] (S : CryptimeleonSetup p G1 G2 GT) (u : User p)

/-- The signed commitment, unblinded with `h^m`, is the signature on `g^x`. -/
theorem unblindSignature_eq [ExpGroup p G1] (g h : G1) (m : ZMod p) :
    u.unblindSignature (zpw (u.createBlindedCommit g h) m) (zpw h m)
      = zpw g (u.secretX * m) := by
  unfold unblindSignature createBlindedCommit
  rw [mul_zpw, ← zpw_mul, ← zpw_mul, ← zpw_mul, mul_comm m, mul_inv_cancel_right]

/-- `verifyCredential` under `mpk = g2^m` accepts exactly `g1^{x m}`. -/
theorem verifyCredential_iff [ExpGroup p GT] [DecidableEq GT] (σ : G1) (m : ZMod p) :
    u.verifyCredential S σ (zpw S.pairing.g2 m) S.pairing.g1 S.pairing.g2 = true ↔
      σ = zpw S.pairing.g1 (u.secretX * m) := by
  unfold verifyCredential
  rw [decide_eq_true_eq, S.pairing.apply_zpw, ← S.pairing.apply_zpw_g2, S.pairing.apply_g2_inj]

end Unblind

end User

end Dittor.Crypto

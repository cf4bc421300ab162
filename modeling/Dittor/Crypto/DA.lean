import Dittor.Crypto.Vrf
import Mathlib.Data.List.AList
import Mathlib.Data.Finset.Basic

/-!
# The cryptography and the registry of a directory authority (`DA.java`)

Two checks and one table. `verifyVrf` ties the pseudonym to the public key,
`verifyCredentialLinkage` ties the credential to it, and `registerNode` keeps,
for each pair of context and pseudonym, the nodes that were accepted under it
with their family ids.

`verifyCredentialLinkage_iff` is the second check in the exponent and
`registerNode_cases` lists the four things a registration can do. The two
checks catch every exception and return `false`; on well-formed arguments the
library calls they make do not throw, so no such case is left in the model.
-/

namespace Dittor.Crypto

open Dittor.Lib

/-- The nodes accepted under one pseudonym, each with its family ids. -/
abbrev Entry := AList fun _ : Text => Finset Text

/-- `registrations`: the key is context and pseudonym in one string. -/
abbrev Registrations := AList fun _ : Text => Entry

/-- `pseudonymKey` -/
def pseudonymKey {G1 G2 GT : Type} (codec : Codec G1 G2 GT) (context : Text) (pseudonym : GT) :
    Text :=
  context ++ '|' :: hexText (codec.uniqueT pseudonym)

/-- `knownFamilyIds`: the family ids of all nodes of an entry. -/
def knownFamilyIds (existing : Entry) : Finset Text :=
  existing.entries.foldl (fun acc e => acc ∪ e.2) ∅

/-- The body of `registerNode` at a key: the new table and the returned value. -/
def registerAt (R : Registrations) (key nodeId : Text) (familyIds : Finset Text) :
    Registrations × Bool :=
  match R.lookup key with
  | none => (R.insert key (AList.singleton nodeId familyIds), true)
  | some existing =>
    if nodeId ∈ existing then (R, true)
    else if Disjoint (knownFamilyIds existing) familyIds then (R, false)
    else (R.insert key (existing.insert nodeId familyIds), true)

/-- The state of a `DA`: its copy of the master public key and the registry. -/
structure DA (G2 : Type) where
  mpkG2 : G2
  registrations : Registrations := ∅

section Code

variable {p : ℕ} {G1 G2 GT : Type} [CommGroup G1] [CommGroup G2] [CommGroup GT]
  [DecidableEq GT] (S : CryptimeleonSetup p G1 G2 GT) (da : DA G2)

/-- `verifyVrf` -/
def DA.verifyVrf (userPubKeyG2 : G2) (vrfData : VRFResult G1 GT) (context : Text) : Bool :=
  isValid S userPubKeyG2 context vrfData

/-- `verifyCredentialLinkage` -/
def DA.verifyCredentialLinkage (userPubKeyG2 : G2) (credentialCommitmentG1 credential : G1)
    (dleqProof : Proof p) (context : Text) : Bool :=
  if verifyProof S credentialCommitmentG1 userPubKeyG2 context dleqProof then
    decide (S.pairing.apply credential S.pairing.g2
      = S.pairing.apply credentialCommitmentG1 da.mpkG2)
  else false

/-- `registerNode` -/
def DA.registerNode (context : Text) (pseudonym : GT) (nodeId : Text) (familyIds : Finset Text) :
    DA G2 × Bool :=
  let result := registerAt da.registrations (pseudonymKey S.codec context pseudonym) nodeId familyIds
  ({ da with registrations := result.1 }, result.2)

end Code

/-! ## The linkage check in the exponent -/

section Linkage

variable {p : ℕ} [Fact p.Prime] {G1 G2 GT : Type} [CommGroup G1] [CommGroup G2]
  [CommGroup GT] [ExpGroup p GT] [DecidableEq GT] (S : CryptimeleonSetup p G1 G2 GT)

/-- With `mpkG2 = g2^m` and `g1x = g1^u` the linkage check asks for a valid
proof and for `g1^{u m}` as the credential. -/
theorem DA.verifyCredentialLinkage_iff {da : DA G2} {m : ZMod p}
    (hm : da.mpkG2 = zpw S.pairing.g2 m) (pk : G2) (u : ZMod p) (σ : G1) (π : Proof p)
    (context : Text) :
    da.verifyCredentialLinkage S pk (zpw S.pairing.g1 u) σ π context = true ↔
      verifyProof S (zpw S.pairing.g1 u) pk context π = true
        ∧ σ = zpw S.pairing.g1 (u * m) := by
  unfold DA.verifyCredentialLinkage
  split
  next hπ =>
    rw [decide_eq_true_eq, hm, S.pairing.apply_zpw, ← S.pairing.apply_zpw_g2,
      S.pairing.apply_g2_inj]
    exact ⟨fun h => ⟨hπ, h⟩, fun h => h.2⟩
  next hπ => exact ⟨fun h => absurd h (by simp), fun h => absurd h.1 hπ⟩

end Linkage

/-! ## The registry -/

section Registry

theorem mem_foldl_union {f : Text} (l : List (Sigma fun _ : Text => Finset Text)) :
    ∀ acc : Finset Text,
      f ∈ l.foldl (fun acc e => acc ∪ e.2) acc ↔ f ∈ acc ∨ ∃ e ∈ l, f ∈ e.2 := by
  induction l with
  | nil => intro acc; simp
  | cons e l ih =>
    intro acc
    rw [List.foldl_cons, ih, Finset.mem_union]
    simp only [List.mem_cons, exists_eq_or_imp, or_assoc]

/-- A known family id is one of a node of the entry. -/
theorem mem_knownFamilyIds {E : Entry} {f : Text} :
    f ∈ knownFamilyIds E ↔ ∃ nodeId ids, E.lookup nodeId = some ids ∧ f ∈ ids := by
  unfold knownFamilyIds
  rw [mem_foldl_union]
  constructor
  · rintro (h | ⟨⟨nodeId, ids⟩, hmem, hf⟩)
    · exact absurd h (Finset.notMem_empty f)
    · exact ⟨nodeId, ids, AList.mem_lookup_iff.mpr hmem, hf⟩
  · rintro ⟨nodeId, ids, hlook, hf⟩
    exact .inr ⟨⟨nodeId, ids⟩, AList.mem_lookup_iff.mp hlook, hf⟩

/-- **What a registration can do**: open an entry, find the node there, add the
node because it shares a family id, or refuse. -/
theorem registerAt_cases (R : Registrations) (key nodeId : Text) (ids : Finset Text) :
    (R.lookup key = none
        ∧ registerAt R key nodeId ids = (R.insert key (AList.singleton nodeId ids), true))
      ∨ ∃ E, R.lookup key = some E
        ∧ ((nodeId ∈ E ∧ registerAt R key nodeId ids = (R, true))
          ∨ (nodeId ∉ E ∧ Disjoint (knownFamilyIds E) ids ∧ registerAt R key nodeId ids = (R, false))
          ∨ (nodeId ∉ E ∧ ¬ Disjoint (knownFamilyIds E) ids
            ∧ registerAt R key nodeId ids = (R.insert key (E.insert nodeId ids), true))) := by
  unfold registerAt
  cases hE : R.lookup key with
  | none => exact .inl ⟨rfl, rfl⟩
  | some E =>
    refine .inr ⟨E, rfl, ?_⟩
    dsimp only
    by_cases hmem : nodeId ∈ E
    · exact .inl ⟨hmem, if_pos hmem⟩
    · rw [if_neg hmem]
      by_cases hdis : Disjoint (knownFamilyIds E) ids
      · exact .inr (.inl ⟨hmem, hdis, if_pos hdis⟩)
      · exact .inr (.inr ⟨hmem, hdis, if_neg hdis⟩)

end Registry

end Dittor.Crypto

import Dittor.Lib.Run
import Dittor.Lib.Smartlist
import Dittor.Tor.Descriptor
import Mathlib.Data.List.AList

/-!
# Detached signatures on a pending consensus (`dirvote.c`, `networkstatus.c`)

After the authorities have computed the same consensus they send each other
their signatures. `networkstatus_add_detached_signatures` merges a document of
such signatures into the pending consensus: a voter keeps one signature per
digest algorithm, a good one is kept for ever, and anything else gives way to a
good one.

The certificate store and RSA are the context `C`; the two flags of a signature
are as in the source, and the check writes them into the document it was called
with, so documents are objects of a pool here (`Round`), and one that is passed
twice comes back with its flags. Nicknames, addresses and the other fields of a
voter are not read by this code. The consensus and the detached-signatures
parsers always set `signature`, which is therefore not optional.

What a document can add is `Contributes`, a property of the document and of the
parts of the consensus that never change; `run_good_iff` says that the good
signatures after any deliveries are the ones at the start and those the
delivered documents contribute. The order plays no part in that.
-/

namespace Dittor.Tor

open Dittor.Lib

/-- `digest_algorithm_t`, up to `N_COMMON_DIGEST_ALGORITHMS` -/
inductive DigestAlgorithm where
  | sha1
  | sha256
deriving DecidableEq, Repr

namespace DigestAlgorithm

/-- `crypto_digest_algorithm_get_name` -/
def name : DigestAlgorithm → String
  | .sha1 => "sha1"
  | .sha256 => "sha256"

/-- `crypto_digest_algorithm_get_length` -/
def length : DigestAlgorithm → ℕ
  | .sha1 => 20
  | .sha256 => 32

end DigestAlgorithm

/-- `consensus_flavor_t` -/
inductive ConsensusFlavor where
  | ns
  | microdesc
deriving DecidableEq, Repr

/-- `networkstatus_get_flavor_name` -/
def ConsensusFlavor.name : ConsensusFlavor → String
  | .ns => "ns"
  | .microdesc => "microdesc"

/-- `common_digests_t`: 32 bytes for each algorithm, zero while unknown. -/
abbrev CommonDigests := DigestAlgorithm → Bytes

/-- `fast_mem_is_zero` -/
def memIsZero (d : Bytes) : Bool := d.all (· = 0)

/-- `document_signature_t` -/
structure DocumentSignature where
  identityDigest : Bytes
  signingKeyDigest : Bytes
  alg : DigestAlgorithm
  signature : Bytes
  goodSignature : Bool := false
  badSignature : Bool := false
deriving DecidableEq, Repr

/-- `networkstatus_voter_info_t` -/
structure VoterInfo where
  identityDigest : Bytes
  sigs : List DocumentSignature

/-- The fields of `networkstatus_t` the signatures depend on. -/
structure NetworkStatus where
  flavor : ConsensusFlavor
  validAfter : ℤ
  freshUntil : ℤ
  validUntil : ℤ
  digests : CommonDigests
  voters : List VoterInfo

/-- `ns_detached_signatures_t`; the maps are by flavor name. -/
structure DetachedSignatures where
  validAfter : ℤ
  freshUntil : ℤ
  validUntil : ℤ
  digests : AList fun _ : Bytes => CommonDigests
  signatures : AList fun _ : Bytes => List DocumentSignature

/-- `authority_cert_t` -/
structure AuthorityCert (Key : Type) where
  identityDigest : Bytes
  signingKey : Key
  signingKeyDigest : Bytes

/-- RSA and the certificates an authority has: `crypto_pk_get_digest`,
`crypto_pk_public_checksig` (the bytes the signature holds) and
`trusted_dir_certs` by identity. -/
structure CertContext (Key : Type) where
  getDigest : Key → Option Bytes
  publicChecksig : Key → Bytes → Option Bytes
  trustedDirCerts : Bytes → List (AuthorityCert Key)

/-- `BAD_SIGNING_KEYS` -/
def badSigningKeys : List String := [
  "09CD84F751FD6E955E0F8ADB497D5401470D697E",
  "0E7E9C07F0969D0468AD741E172A6109DC289F3C",
  "57B85409891D3FB32137F642FDEDF8B7F8CDFDCD",
  "87326329007AF781F587AF5B594E540B2B6C7630",
  "98CC82342DE8D298CF99D3F1A396475901E0D38E",
  "9904B52336713A5ADCB13E4FB14DC919E0D45571",
  "9DCD8E3F1DD1597E2AD476BBA28A1A89F3095227",
  "A61682F34B9BB9694AC98491FE1ABBFE61923941",
  "B59F6E99C575113650C99F1C425BA7B20A8C071D",
  "D27178388FA75B96D37FA36E0B015227DDDBDA51"]

/-- `authority_cert_is_denylisted`; both sides are upper case. -/
def AuthorityCert.isDenylisted {Key : Type} (cert : AuthorityCert Key) : Bool :=
  badSigningKeys.any fun k => base16Encode cert.signingKeyDigest = cstring k

section Model

variable {Key : Type} (C : CertContext Key)

/-- `authority_cert_get_by_digests` -/
def CertContext.getByDigests (idDigest skDigest : Bytes) : Option (AuthorityCert Key) :=
  (C.trustedDirCerts idDigest).find? fun cert => cert.signingKeyDigest = skDigest

/-- `networkstatus_check_document_signature`; a certificate for another key
leaves the flags alone. -/
def checkDocumentSignature (digests : CommonDigests) (sig : DocumentSignature)
    (cert : AuthorityCert Key) : DocumentSignature :=
  let dlen := sig.alg.length
  match C.getDigest cert.signingKey with
  | none => sig
  | some keyDigest =>
    if sig.signingKeyDigest ≠ keyDigest ∨ sig.identityDigest ≠ cert.identityDigest then sig
    else if cert.isDenylisted then { sig with badSignature := true }
    else
      match C.publicChecksig cert.signingKey sig.signature with
      | none => { sig with badSignature := true }
      | some signedDigest =>
        if signedDigest.length < dlen ∨ signedDigest.take dlen ≠ (digests sig.alg).take dlen then
          { sig with badSignature := true }
        else { sig with goodSignature := true }

/-- "Try checking the signature if we haven't already." -/
def tryChecking (digests : CommonDigests) (sig : DocumentSignature) : DocumentSignature :=
  if sig.goodSignature || sig.badSignature then sig
  else match C.getByDigests sig.identityDigest sig.signingKeyDigest with
  | none => sig
  | some cert => checkDocumentSignature C digests sig cert

/-- `networkstatus_get_voter_sig_by_alg`, with the position of the signature. -/
def VoterInfo.sigByAlg (voter : VoterInfo) (alg : DigestAlgorithm) : Option ℕ :=
  voter.sigs.findIdx? fun sig => sig.alg = alg

/-- `smartlist_remove` of the old signature, if there is one, and
`smartlist_add` of a copy of the new one. -/
def VoterInfo.replaceSig (voter : VoterInfo) (old : Option ℕ) (sig : DocumentSignature) :
    VoterInfo :=
  { voter with
    sigs := (match old with
      | none => voter.sigs
      | some i => swapRemove i voter.sigs) ++ [sig] }

/-- `networkstatus_get_voter_by_id`, as the position of the voter. -/
def NetworkStatus.voterById (target : NetworkStatus) (identity : Bytes) : Option ℕ :=
  target.voters.findIdx? fun voter => voter.identityDigest = identity

/-- The same, for the voter at position `j`. -/
def NetworkStatus.replaceSig (target : NetworkStatus) (j : ℕ) (old : Option ℕ)
    (sig : DocumentSignature) : NetworkStatus :=
  { target with voters := target.voters.modify j (·.replaceSig old sig) }

/-- The loop body: the consensus, the document's signature, and whether one was added. -/
def addSignature (target : NetworkStatus) (sig : DocumentSignature) :
    NetworkStatus × DocumentSignature × ℕ :=
  match target.voterById sig.identityDigest with
  | none => (target, sig, 0)
  | some j =>
    match target.voters[j]? with
    | none => (target, sig, 0)
    | some targetVoter =>
      let old := targetVoter.sigByAlg sig.alg
      let oldSig := old.bind fun i => targetVoter.sigs[i]?
      if oldSig.any (·.goodSignature) then (target, sig, 0)
      else
        let sig := tryChecking C target.digests sig
        if sig.goodSignature || oldSig.isNone || oldSig.any (·.badSignature) then
          (target.replaceSig j old sig, sig, 1)
        else (target, sig, 0)

/-- The loop over a document's signatures. -/
def addSignatures (target : NetworkStatus) :
    List DocumentSignature → NetworkStatus × List DocumentSignature × ℕ
  | [] => (target, [], 0)
  | sig :: sigs =>
    let (target, sig, r) := addSignature C target sig
    let (target, sigs, r') := addSignatures target sigs
    (target, sig :: sigs, r + r')

/-- The tests before the loop: the signatures for this flavor, or the message of
the first test that fails. -/
def signaturesFor (target : NetworkStatus) (sigs : DetachedSignatures) :
    Except String (List DocumentSignature) :=
  if target.validAfter ≠ sigs.validAfter then
    .error "Valid-After times do not match when adding detached signatures to consensus"
  else if target.freshUntil ≠ sigs.freshUntil then
    .error "Fresh-until times do not match when adding detached signatures to consensus"
  else if target.validUntil ≠ sigs.validUntil then
    .error "Valid-until times do not match when adding detached signatures to consensus"
  else match sigs.signatures.lookup (cstring target.flavor.name) with
  | none => .error "No signatures for given consensus flavor"
  | some siglist =>
    match sigs.digests.lookup (cstring target.flavor.name) with
    | none => .error "No digests for given consensus flavor"
    | some digests =>
      if [DigestAlgorithm.sha1, .sha256].any fun alg =>
          !memIsZero (digests alg) && target.digests alg ≠ digests alg then
        .error "Mismatched digest."
      else .ok siglist

/-- `networkstatus_add_detached_signatures`: the consensus, the document with
the flags it has now, and the number of signatures added. -/
def networkstatusAddDetachedSignatures (target : NetworkStatus) (sigs : DetachedSignatures) :
    Except String (NetworkStatus × DetachedSignatures × ℕ) := do
  let siglist ← signaturesFor target sigs
  let (target', siglist', r) := addSignatures C target siglist
  return (target', { sigs with
    signatures := sigs.signatures.insert (cstring target.flavor.name) siglist' }, r)

/-- The pending consensus and the documents, as the calls leave them. -/
structure Round (ι : Type) where
  target : NetworkStatus
  documents : ι → DetachedSignatures

variable {ι : Type} [DecidableEq ι]

/-- One call with document `i`. -/
def Round.add (s : Round ι) (i : ι) : Round ι :=
  match networkstatusAddDetachedSignatures C s.target (s.documents i) with
  | .error _ => s
  | .ok (target, sigs, _) =>
    { target := target, documents := Function.update s.documents i sigs }

/-- The calls of a whole period. -/
def Round.addAll (s : Round ι) (order : List ι) : Round ι := order.foldl (Round.add C) s

end Model

/-! ## The check -/

section Check

variable {Key : Type} {C : CertContext Key}

/-- Two signatures that differ in their flags at most. -/
structure SameSignature (sig sig' : DocumentSignature) : Prop where
  identityDigest : sig'.identityDigest = sig.identityDigest
  signingKeyDigest : sig'.signingKeyDigest = sig.signingKeyDigest
  alg : sig'.alg = sig.alg
  signature : sig'.signature = sig.signature

/-- The check sets one flag, or none. -/
theorem checkDocumentSignature_cases (digests : CommonDigests) (sig : DocumentSignature)
    (cert : AuthorityCert Key) :
    checkDocumentSignature C digests sig cert = sig
      ∨ checkDocumentSignature C digests sig cert = { sig with badSignature := true }
      ∨ checkDocumentSignature C digests sig cert = { sig with goodSignature := true } := by
  unfold checkDocumentSignature
  dsimp only
  split
  · exact Or.inl rfl
  · split
    · exact Or.inl rfl
    · split
      · exact Or.inr (Or.inl rfl)
      · split
        · exact Or.inr (Or.inl rfl)
        · split
          · exact Or.inr (Or.inl rfl)
          · exact Or.inr (Or.inr rfl)

theorem tryChecking_cases (digests : CommonDigests) (sig : DocumentSignature) :
    tryChecking C digests sig = sig
      ∨ tryChecking C digests sig = { sig with badSignature := true }
      ∨ tryChecking C digests sig = { sig with goodSignature := true } := by
  unfold tryChecking
  split
  · exact Or.inl rfl
  · split
    · exact Or.inl rfl
    · exact checkDocumentSignature_cases digests sig _

theorem tryChecking_same (digests : CommonDigests) (sig : DocumentSignature) :
    SameSignature sig (tryChecking C digests sig) := by
  rcases tryChecking_cases digests sig with h | h | h
  · rw [h]
    exact ⟨rfl, rfl, rfl, rfl⟩
  · rw [h]
    exact ⟨rfl, rfl, rfl, rfl⟩
  · rw [h]
    exact ⟨rfl, rfl, rfl, rfl⟩

/-- A signature is checked once: what the first check said stays. -/
theorem tryChecking_twice (digests : CommonDigests) (sig : DocumentSignature) :
    tryChecking C digests (tryChecking C digests sig) = tryChecking C digests sig := by
  rcases tryChecking_cases digests sig with h | h | h
  · rw [h, h]
  · rw [h, tryChecking, if_pos (by simp)]
  · rw [h, tryChecking, if_pos (by simp)]

end Check

/-! ## One signature -/

section Step

variable {Key : Type} {C : CertContext Key}

/-- The good signatures of a consensus, by the position of their voter. -/
def Good (t : NetworkStatus) (j : ℕ) (alg : DigestAlgorithm) : Prop :=
  ∃ v, t.voters[j]? = some v ∧ ∃ sig ∈ v.sigs, sig.alg = alg ∧ sig.goodSignature = true

/-- Each voter has at most one signature per algorithm. -/
def OnePerAlgorithm (t : NetworkStatus) : Prop :=
  ∀ v ∈ t.voters, (v.sigs.map (·.alg)).Nodup

/-- What adding signatures never touches: the consensus itself, its voters,
and the good signatures they hold. -/
structure Keeps (t t' : NetworkStatus) : Prop where
  flavor : t'.flavor = t.flavor
  times : t'.validAfter = t.validAfter ∧ t'.freshUntil = t.freshUntil ∧ t'.validUntil = t.validUntil
  digests : t'.digests = t.digests
  ids : t'.voters.map (·.identityDigest) = t.voters.map (·.identityDigest)
  good : ∀ {j : ℕ} {v : VoterInfo}, t.voters[j]? = some v → ∃ v', t'.voters[j]? = some v'
    ∧ ∀ sig ∈ v.sigs, sig.goodSignature = true → sig ∈ v'.sigs

theorem Keeps.refl (t : NetworkStatus) : Keeps t t :=
  ⟨rfl, ⟨rfl, rfl, rfl⟩, rfl, rfl, fun h => ⟨_, h, fun _ hs _ => hs⟩⟩

theorem Keeps.trans {t u w : NetworkStatus} (h₁ : Keeps t u) (h₂ : Keeps u w) : Keeps t w := by
  refine ⟨h₂.flavor.trans h₁.flavor, ⟨h₂.times.1.trans h₁.times.1, h₂.times.2.1.trans h₁.times.2.1,
    h₂.times.2.2.trans h₁.times.2.2⟩, h₂.digests.trans h₁.digests, h₂.ids.trans h₁.ids, ?_⟩
  intro j v hv
  obtain ⟨v', hv', hg⟩ := h₁.good hv
  obtain ⟨v'', hv'', hg'⟩ := h₂.good hv'
  exact ⟨v'', hv'', fun sig hs hgood => hg' sig (hg sig hs hgood) hgood⟩

/-- The position of a voter depends on the ids only. -/
theorem voterById_eq (t : NetworkStatus) (id : Bytes) :
    t.voterById id = (t.voters.map (·.identityDigest)).findIdx? (· = id) := by
  unfold NetworkStatus.voterById
  rw [List.findIdx?_map]
  rfl

theorem Keeps.voterById {t t' : NetworkStatus} (h : Keeps t t') (id : Bytes) :
    t'.voterById id = t.voterById id := by
  rw [voterById_eq, voterById_eq, h.ids]

/-- What the loop body can do with a signature. -/
inductive AddStep (C : CertContext Key) (t : NetworkStatus) (sig : DocumentSignature) :
    NetworkStatus → DocumentSignature → ℕ → Prop
  | unknown (hj : ∀ j v, t.voterById sig.identityDigest = some j → t.voters[j]? ≠ some v) :
      AddStep C t sig t sig 0
  | held {j : ℕ} {v : VoterInfo} {i : ℕ} {old : DocumentSignature}
      (hj : t.voterById sig.identityDigest = some j) (hv : t.voters[j]? = some v)
      (hi : v.sigByAlg sig.alg = some i) (hold : v.sigs[i]? = some old)
      (hg : old.goodSignature = true) : AddStep C t sig t sig 0
  | replaced {j : ℕ} {v : VoterInfo} (hj : t.voterById sig.identityDigest = some j)
      (hv : t.voters[j]? = some v)
      (hold : ∀ i old, v.sigByAlg sig.alg = some i → v.sigs[i]? = some old →
        old.goodSignature = false) :
      AddStep C t sig
        (t.replaceSig j (v.sigByAlg sig.alg) (tryChecking C t.digests sig))
        (tryChecking C t.digests sig) 1
  | ignored {j : ℕ} {v : VoterInfo} (hj : t.voterById sig.identityDigest = some j)
      (hv : t.voters[j]? = some v)
      (hsig : (tryChecking C t.digests sig).goodSignature = false) :
      AddStep C t sig t (tryChecking C t.digests sig) 0

variable (C) in
theorem addSignature_spec (t : NetworkStatus) (sig : DocumentSignature) :
    AddStep C t sig (addSignature C t sig).1 (addSignature C t sig).2.1
      (addSignature C t sig).2.2 := by
  unfold addSignature
  split
  next hj => exact .unknown fun j v h => absurd (hj.symm.trans h) (by simp)
  next j hj =>
    split
    next hv =>
      refine .unknown fun j' v h hv' => ?_
      rw [Option.some.inj (hj.symm.trans h), hv'] at hv
      exact absurd hv (by simp)
    next v hv =>
      dsimp only
      split
      next hg =>
        obtain ⟨old, hold, hg⟩ := (Option.any_eq_true _ _).mp hg
        obtain ⟨i, hi, hold⟩ := Option.bind_eq_some_iff.mp hold
        exact .held hj hv hi hold hg
      next hg =>
        split
        next hadd =>
          refine .replaced hj hv fun i old hi hold => ?_
          by_contra hgood
          refine hg ?_
          rw [hi, Option.bind_some, hold]
          simpa using hgood
        next hadd =>
          refine .ignored hj hv ?_
          simp only [Bool.or_eq_true, not_or, Bool.not_eq_true] at hadd
          exact hadd.1.1

/-- The voter at `j` is the only one that changes. -/
theorem replaceSig_getElem (t : NetworkStatus) (j : ℕ) (old : Option ℕ) (sig : DocumentSignature)
    (k : ℕ) : (t.replaceSig j old sig).voters[k]?
      = if j = k then (t.voters[k]?).map (·.replaceSig old sig) else t.voters[k]? := by
  simp only [NetworkStatus.replaceSig, List.getElem?_modify]
  split
  · rfl
  · cases t.voters[k]? <;> rfl

/-- The old signature of this algorithm, and the position it stands at. -/
theorem sigByAlg_some {v : VoterInfo} {alg : DigestAlgorithm} {i : ℕ}
    (h : v.sigByAlg alg = some i) :
    ∃ hi : i < v.sigs.length, (v.sigs.get ⟨i, hi⟩).alg = alg := by
  obtain ⟨hi, ha, -⟩ := List.findIdx?_eq_some_iff_getElem.mp h
  exact ⟨hi, by simpa using ha⟩

theorem sigByAlg_none {v : VoterInfo} {alg : DigestAlgorithm} (h : v.sigByAlg alg = none) :
    ∀ sig ∈ v.sigs, sig.alg ≠ alg := by
  intro sig hs
  have := List.findIdx?_eq_none_iff.mp h sig hs
  simpa using this

/-- What is left of the old list has every signature but the old one, and
no second one. -/
theorem mem_replaceSig {v : VoterInfo} {sig s : DocumentSignature} :
    s ∈ (v.replaceSig (v.sigByAlg sig.alg) sig).sigs → s = sig ∨ s ∈ v.sigs := by
  intro hs
  rcases List.mem_append.mp hs with hs | hs
  · right
    cases hold : v.sigByAlg sig.alg with
    | none => rw [hold] at hs; exact hs
    | some i =>
      rw [hold] at hs
      obtain ⟨hi, -⟩ := sigByAlg_some hold
      exact List.mem_of_mem_eraseIdx ((swapRemove_perm hi).mem_iff.mp hs)
  · exact Or.inl (List.mem_singleton.mp hs)

/-- A good signature is not the one that is replaced. -/
theorem mem_replaceSig_of_good {v : VoterInfo} {sig s : DocumentSignature}
    (hold : ∀ i old, v.sigByAlg sig.alg = some i → v.sigs[i]? = some old →
      old.goodSignature = false)
    (hs : s ∈ v.sigs) (hg : s.goodSignature = true) :
    s ∈ (v.replaceSig (v.sigByAlg sig.alg) sig).sigs := by
  refine List.mem_append.mpr (Or.inl ?_)
  cases ho : v.sigByAlg sig.alg with
  | none => exact hs
  | some i =>
    obtain ⟨hi, -⟩ := sigByAlg_some ho
    refine (swapRemove_perm hi).mem_iff.mpr (List.mem_eraseIdx_iff_getElem?.mpr ?_)
    obtain ⟨k, hk⟩ := List.mem_iff_getElem?.mp hs
    refine ⟨k, fun he => ?_, hk⟩
    rw [he] at hk
    exact absurd (hold i s ho hk) (by rw [hg]; simp)

/-- One signature per algorithm stays one per algorithm. -/
theorem nodup_replaceSig {v : VoterInfo} (sig : DocumentSignature)
    (h : (v.sigs.map (·.alg)).Nodup) :
    ((v.replaceSig (v.sigByAlg sig.alg) sig).sigs.map (·.alg)).Nodup := by
  unfold VoterInfo.replaceSig
  dsimp only
  rw [List.map_append, List.map_singleton, (List.perm_append_singleton _ _).nodup_iff]
  cases ho : v.sigByAlg sig.alg with
  | none =>
    refine List.nodup_cons.mpr ⟨fun hm => ?_, h⟩
    obtain ⟨s, hs, ha⟩ := List.mem_map.mp hm
    exact sigByAlg_none ho s hs ha
  | some i =>
    -- the new signature stands for the old one, up to order
    obtain ⟨hi, ha⟩ := sigByAlg_some ho
    have hrest := (swapRemove_perm hi).map (·.alg)
    have hwhole := (List.getElem_cons_eraseIdx_perm hi).map (·.alg)
    rw [List.map_cons, show v.sigs[i].alg = sig.alg from ha] at hwhole
    exact (((hrest.cons _).trans hwhole).nodup_iff).mpr h

/-- The step leaves the consensus, its voters and its good signatures. -/
theorem AddStep.keeps {t t' : NetworkStatus} {sig sig' : DocumentSignature} {r : ℕ}
    (h : AddStep C t sig t' sig' r) : Keeps t t' := by
  cases h with
  | unknown => exact .refl t
  | held => exact .refl t
  | ignored => exact .refl t
  | @replaced j v hj hv hold =>
    refine ⟨rfl, ⟨rfl, rfl, rfl⟩, rfl, ?_, ?_⟩
    · refine List.ext_getElem? fun k => ?_
      rw [List.getElem?_map, List.getElem?_map, replaceSig_getElem]
      split
      · cases t.voters[k]? <;> rfl
      · rfl
    · intro k w hw
      rw [replaceSig_getElem]
      split
      next hjk =>
        subst hjk
        have hwv : w = v := Option.some.inj (hw.symm.trans hv)
        subst hwv
        refine ⟨_, by rw [hw]; rfl, fun s hs hg => ?_⟩
        rw [← (tryChecking_same t.digests sig).alg] at hold ⊢
        exact mem_replaceSig_of_good hold hs hg
      · exact ⟨w, hw, fun _ hs _ => hs⟩

theorem AddStep.onePerAlgorithm {t t' : NetworkStatus} {sig sig' : DocumentSignature} {r : ℕ}
    (h : AddStep C t sig t' sig' r) (ht : OnePerAlgorithm t) : OnePerAlgorithm t' := by
  cases h with
  | unknown => exact ht
  | held => exact ht
  | ignored => exact ht
  | @replaced j v hj hv hold =>
    intro w hw
    obtain ⟨k, hk⟩ := List.mem_iff_getElem?.mp hw
    rw [replaceSig_getElem] at hk
    split at hk
    next hjk =>
      subst hjk
      rw [hv, Option.map_some] at hk
      rw [← Option.some.inj hk, ← (tryChecking_same t.digests sig).alg]
      exact nodup_replaceSig _ (ht v (List.mem_of_getElem? hv))
    · exact ht w (List.mem_of_getElem? hk)

theorem AddStep.signature {t t' : NetworkStatus} {sig sig' : DocumentSignature} {r : ℕ}
    (h : AddStep C t sig t' sig' r) : sig' = sig ∨ sig' = tryChecking C t.digests sig := by
  cases h with
  | unknown => exact Or.inl rfl
  | held => exact Or.inl rfl
  | replaced => exact Or.inr rfl
  | ignored => exact Or.inr rfl

/-- A signature that counts for the voter at `j` under `alg`. -/
def Verifies (C : CertContext Key) (t : NetworkStatus) (sig : DocumentSignature) (j : ℕ)
    (alg : DigestAlgorithm) : Prop :=
  t.voterById sig.identityDigest = some j ∧ sig.alg = alg
    ∧ (tryChecking C t.digests sig).goodSignature = true

/-- **What one signature adds**: itself, if it verifies. -/
theorem AddStep.good_iff {t t' : NetworkStatus} {sig sig' : DocumentSignature} {r : ℕ}
    (h : AddStep C t sig t' sig' r) {k : ℕ} {alg : DigestAlgorithm} :
    Good t' k alg ↔ Good t k alg ∨ Verifies C t sig k alg := by
  constructor
  · intro hg
    cases h with
    | unknown => exact Or.inl hg
    | held => exact Or.inl hg
    | ignored => exact Or.inl hg
    | @replaced j v hj hv hold =>
      obtain ⟨w, hw, s, hs, ha, hgood⟩ := hg
      rw [replaceSig_getElem] at hw
      split at hw
      next hjk =>
        subst hjk
        rw [hv, Option.map_some] at hw
        have halg := (tryChecking_same (C := C) t.digests sig).alg
        rw [← Option.some.inj hw, ← halg] at hs
        rcases mem_replaceSig hs with he | hs
        · rw [he] at ha hgood
          exact Or.inr ⟨hj, halg.symm.trans ha, hgood⟩
        · exact Or.inl ⟨v, hv, s, hs, ha, hgood⟩
      · exact Or.inl ⟨w, hw, s, hs, ha, hgood⟩
  · intro hg
    rcases hg with ⟨v, hv, s, hs, ha, hgood⟩ | ⟨hk, ha, hgood⟩
    · obtain ⟨v', hv', hkept⟩ := h.keeps.good hv
      exact ⟨v', hv', s, hkept s hs hgood, ha, hgood⟩
    · cases h with
      | unknown hj =>
        obtain ⟨hlt, -⟩ := List.findIdx?_eq_some_iff_getElem.mp hk
        exact absurd (List.getElem?_eq_getElem hlt) (hj k _ hk)
      | @held j v i old hj hv hi hold hold' =>
        -- the voter's signature of this algorithm is good already
        obtain ⟨hlt, halg⟩ := sigByAlg_some hi
        have hold'' : v.sigs.get ⟨i, hlt⟩ = old :=
          Option.some.inj ((List.getElem?_eq_getElem hlt).symm.trans hold)
        rw [hold''] at halg
        refine ⟨v, ?_, old, List.mem_of_getElem? hold, halg.trans ha, hold'⟩
        rw [← Option.some.inj (hj.symm.trans hk)]
        exact hv
      | @replaced j v hj hv hold =>
        have hjk : j = k := Option.some.inj (hj.symm.trans hk)
        subst hjk
        refine ⟨v.replaceSig (v.sigByAlg sig.alg) (tryChecking C t.digests sig), ?_,
          tryChecking C t.digests sig, List.mem_append.mpr (Or.inr (by simp)), ?_, hgood⟩
        · rw [replaceSig_getElem, if_pos rfl, hv, Option.map_some]
        · exact (tryChecking_same t.digests sig).alg.trans ha
      | ignored _ _ hsig => exact absurd hgood (by rw [hsig]; simp)

theorem Keeps.verifies_iff {t t' : NetworkStatus} (h : Keeps t t') {sig : DocumentSignature}
    {j : ℕ} {alg : DigestAlgorithm} : Verifies C t' sig j alg ↔ Verifies C t sig j alg := by
  unfold Verifies
  rw [h.voterById, h.digests]

/-- A checked signature counts for what it counted before. -/
theorem verifies_of_progress {t : NetworkStatus} {sig sig' : DocumentSignature} {j : ℕ}
    {alg : DigestAlgorithm} (h : sig' = sig ∨ sig' = tryChecking C t.digests sig) :
    Verifies C t sig' j alg ↔ Verifies C t sig j alg := by
  rcases h with rfl | rfl
  · exact Iff.rfl
  · have hsame := tryChecking_same (C := C) t.digests sig
    unfold Verifies
    rw [hsame.identityDigest, hsame.alg, tryChecking_twice]

end Step

/-! ## One document -/

section Document

variable {Key : Type} {C : CertContext Key}

/-- What the loop over a document's signatures comes to. -/
structure LoopSpec (C : CertContext Key) (t : NetworkStatus) (l : List DocumentSignature)
    (t' : NetworkStatus) (l' : List DocumentSignature) : Prop where
  keeps : Keeps t t'
  one : OnePerAlgorithm t → OnePerAlgorithm t'
  good_iff : ∀ j alg, Good t' j alg ↔ Good t j alg ∨ ∃ sig ∈ l, Verifies C t sig j alg
  verifies_iff : ∀ j alg,
    (∃ sig ∈ l', Verifies C t sig j alg) ↔ ∃ sig ∈ l, Verifies C t sig j alg

theorem addSignatures_spec : ∀ (l : List DocumentSignature) (t : NetworkStatus),
    LoopSpec C t l (addSignatures C t l).1 (addSignatures C t l).2.1 := by
  intro l
  induction l with
  | nil => exact fun t => ⟨.refl t, id, by simp [addSignatures], by simp [addSignatures]⟩
  | cons sig sigs ih =>
    intro t
    have hstep := addSignature_spec C t sig
    have hrest := ih (addSignature C t sig).1
    have hk := hstep.keeps
    refine ⟨hk.trans hrest.keeps, fun ht => hrest.one (hstep.onePerAlgorithm ht), ?_, ?_⟩
    · intro j alg
      show Good (addSignatures C (addSignature C t sig).1 sigs).1 j alg ↔ _
      rw [hrest.good_iff, hstep.good_iff, or_assoc, List.exists_mem_cons_iff]
      simp only [hk.verifies_iff]
    · intro j alg
      show (∃ s ∈ (addSignature C t sig).2.1 :: (addSignatures C (addSignature C t sig).1 sigs).2.1,
        Verifies C t s j alg) ↔ _
      have hsame := hrest.verifies_iff j alg
      simp only [hk.verifies_iff] at hsame
      rw [List.exists_mem_cons_iff, List.exists_mem_cons_iff,
        verifies_of_progress hstep.signature, hsame]

/-- What a document adds to the consensus. -/
def Contributes (C : CertContext Key) (t : NetworkStatus) (sigs : DetachedSignatures) (j : ℕ)
    (alg : DigestAlgorithm) : Prop :=
  ∃ l, signaturesFor t sigs = .ok l ∧ ∃ sig ∈ l, Verifies C t sig j alg

theorem Keeps.signaturesFor {t t' : NetworkStatus} (h : Keeps t t') (sigs : DetachedSignatures) :
    signaturesFor t' sigs = signaturesFor t sigs := by
  unfold Tor.signaturesFor
  rw [h.times.1, h.times.2.1, h.times.2.2, h.flavor, h.digests]

theorem Keeps.contributes_iff {t t' : NetworkStatus} (h : Keeps t t') {sigs : DetachedSignatures}
    {j : ℕ} {alg : DigestAlgorithm} : Contributes C t' sigs j alg ↔ Contributes C t sigs j alg := by
  unfold Contributes
  simp only [h.signaturesFor, h.verifies_iff]

/-- An accepted document has a list for the flavor. -/
theorem signaturesFor_lookup {t : NetworkStatus} {sigs : DetachedSignatures}
    {l : List DocumentSignature} (h : signaturesFor t sigs = .ok l) :
    sigs.signatures.lookup (cstring t.flavor.name) = some l := by
  unfold signaturesFor at h
  split_ifs at h
  split at h
  · exact absurd h (by simp)
  next siglist hl =>
    split at h
    · exact absurd h (by simp)
    · split at h
      · exact absurd h (by simp)
      · rw [hl, Except.ok.inj h]

/-- The flags of a document's signatures do not decide whether it is accepted. -/
theorem signaturesFor_insert {t : NetworkStatus} {sigs : DetachedSignatures}
    {l : List DocumentSignature} (h : signaturesFor t sigs = .ok l) (l' : List DocumentSignature) :
    signaturesFor t { sigs with
      signatures := sigs.signatures.insert (cstring t.flavor.name) l' } = .ok l' := by
  have hl := signaturesFor_lookup h
  unfold signaturesFor at h ⊢
  dsimp only
  rw [hl] at h
  rw [AList.lookup_insert]
  split_ifs at h ⊢
  dsimp only at h ⊢
  split at h
  · exact absurd h (by simp)
  · split at h
    · exact absurd h (by simp)
    next hd =>
      rw [if_neg hd]

variable {ι : Type} [DecidableEq ι]

/-- One call: the good signatures grow by what the document contributes, and
the documents contribute what they did. -/
theorem add_spec (s : Round ι) (i : ι) :
    Keeps s.target (s.add C i).target
      ∧ (OnePerAlgorithm s.target → OnePerAlgorithm (s.add C i).target)
      ∧ (∀ j alg, Good (s.add C i).target j alg ↔
        Good s.target j alg ∨ Contributes C s.target (s.documents i) j alg)
      ∧ ∀ k j alg, Contributes C s.target ((s.add C i).documents k) j alg ↔
        Contributes C s.target (s.documents k) j alg := by
  unfold Round.add networkstatusAddDetachedSignatures
  cases hl : signaturesFor s.target (s.documents i) with
  | error msg =>
    refine ⟨.refl _, id, fun j alg => ?_, fun _ _ _ => Iff.rfl⟩
    have hno : ¬ Contributes C s.target (s.documents i) j alg := by
      intro hc
      obtain ⟨l, hok, -⟩ := hc
      exact absurd (hl.symm.trans hok) (by simp)
    exact ⟨Or.inl, fun h => h.resolve_right hno⟩
  | ok l =>
    have hspec := addSignatures_spec (C := C) l s.target
    have hdoc : ∀ j alg, Contributes C s.target (s.documents i) j alg ↔
        ∃ sig ∈ l, Verifies C s.target sig j alg := by
      intro j alg
      constructor
      · intro hc
        obtain ⟨l', hok, h⟩ := hc
        rw [Except.ok.inj (hl.symm.trans hok)]
        exact h
      · exact fun h => ⟨l, hl, h⟩
    refine ⟨hspec.keeps, hspec.one, fun j alg => ?_, fun k j alg => ?_⟩
    · rw [hdoc]
      exact hspec.good_iff j alg
    · by_cases hk : k = i
      · subst hk
        rw [hdoc, ← hspec.verifies_iff]
        show Contributes C s.target (Function.update s.documents k _ k) j alg ↔ _
        rw [Function.update_self]
        have hnew := signaturesFor_insert hl (addSignatures C s.target l).2.1
        constructor
        · intro hc
          obtain ⟨l', hok, h⟩ := hc
          rw [Except.ok.inj (hnew.symm.trans hok)]
          exact h
        · exact fun h => ⟨_, hnew, h⟩
      · show Contributes C s.target (Function.update s.documents i _ k) j alg ↔ _
        rw [Function.update_of_ne hk]

end Document

/-! ## A whole period -/

section Period

variable {Key ι : Type} {C : CertContext Key} [DecidableEq ι]

theorem addAll_keeps (s : Round ι) (order : List ι) :
    Keeps s.target (s.addAll C order).target
      ∧ (OnePerAlgorithm s.target → OnePerAlgorithm (s.addAll C order).target) := by
  induction order generalizing s with
  | nil => exact ⟨.refl _, id⟩
  | cons i order ih =>
    obtain ⟨hk, hone, -⟩ := add_spec (C := C) s i
    obtain ⟨hk', hone'⟩ := ih (s.add C i)
    exact ⟨hk.trans hk', hone' ∘ hone⟩

/-- The good signatures after a sequence of calls. -/
theorem addAll_good_iff (s : Round ι) (order : List ι) (j : ℕ) (alg : DigestAlgorithm) :
    Good (s.addAll C order).target j alg ↔
      Good s.target j alg ∨ ∃ i ∈ order, Contributes C s.target (s.documents i) j alg := by
  induction order generalizing s with
  | nil => simp [Round.addAll]
  | cons i order ih =>
    obtain ⟨hk, -, hgood, hdocs⟩ := add_spec (C := C) s i
    show Good ((s.add C i).addAll C order).target j alg ↔ _
    rw [ih (s.add C i), hgood, or_assoc, List.exists_mem_cons_iff]
    simp only [hk.contributes_iff, hdocs]

/-- **Good signatures are kept, and their set does not depend on the order.**
For every consensus, certificate store and pool of documents: a voter holds at
most one signature per algorithm, a good one is still there after any further
calls, and calls with the same documents in any order and number lead to the
same pairs of voter and algorithm with a good signature. -/
theorem good_signatures_kept_in_any_order (s : Round ι) (h : OnePerAlgorithm s.target)
    (order : List ι) :
    OnePerAlgorithm (s.addAll C order).target
      ∧ (∀ (more : List ι) (j : ℕ) (v : VoterInfo), (s.addAll C order).target.voters[j]? = some v →
        ∃ v', (s.addAll C (order ++ more)).target.voters[j]? = some v'
          ∧ ∀ sig ∈ v.sigs, sig.goodSignature = true → sig ∈ v'.sigs)
      ∧ ∀ order', (∀ i, i ∈ order ↔ i ∈ order') → ∀ j alg,
        Good (s.addAll C order).target j alg ↔ Good (s.addAll C order').target j alg := by
  refine ⟨(addAll_keeps s order).2 h, fun more j v hv => ?_, fun order' hsame j alg => ?_⟩
  · rw [Round.addAll, List.foldl_append]
    exact (addAll_keeps (s.addAll C order) more).1.good hv
  · rw [addAll_good_iff, addAll_good_iff]
    simp only [hsame]

end Period

/-- A store with one certificate, whose key recovers what was signed. -/
def sampleCerts : CertContext Unit where
  getDigest _ := some [1]
  publicChecksig _ sig := some sig
  trustedDirCerts id := if id = [9] then [⟨[9], (), [1]⟩] else []

/-- A consensus of one voter without signatures, and two documents: one signs
another digest, one signs this one. -/
def sampleRound : Round Bool where
  target := ⟨.ns, 0, 1, 2, fun _ => List.replicate 32 7, [⟨[9], []⟩]⟩
  documents good :=
    { validAfter := 0, freshUntil := 1, validUntil := 2
      digests := (∅ : AList fun _ : Bytes => CommonDigests).insert (cstring "ns")
        fun _ => List.replicate 32 7
      signatures := (∅ : AList fun _ : Bytes => List DocumentSignature).insert (cstring "ns")
        [⟨[9], [1], .sha1, List.replicate 20 (if good then 7 else 8), false, false⟩] }

/-- The good signature is there whether it arrives before or after the bad one. -/
theorem good_signatures_kept_two :
    OnePerAlgorithm sampleRound.target
      ∧ Good (sampleRound.addAll sampleCerts [true, false]).target 0 .sha1
      ∧ Good (sampleRound.addAll sampleCerts [false, true, false]).target 0 .sha1 := by
  have hone : OnePerAlgorithm sampleRound.target := by
    intro v hv
    rw [List.mem_singleton.mp hv]
    exact .nil
  have hfirst : Good (sampleRound.addAll sampleCerts [true, false]).target 0 .sha1 :=
    ⟨_, rfl, _, List.mem_singleton.mpr rfl, rfl, rfl⟩
  have hsame := (good_signatures_kept_in_any_order (C := sampleCerts) sampleRound hone
    [true, false]).2.2 [false, true, false] (by decide) 0 .sha1
  exact ⟨hone, hfirst, hsame.mp hfirst⟩

end Dittor.Tor

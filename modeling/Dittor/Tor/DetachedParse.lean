import Dittor.Tor.SignatureText

/-!
# Parsing detached signatures (`dsigs_parse.c`)

`networkstatus_parse_detached_signatures`, which anyone can post a document to. Reading a time
(`parse_iso_time`) is a parameter, on which nothing depends.

A signature that gets through has digests of 20 bytes, 128 to 512 bytes of its own, and
neither flag (`parseDetachedSignatures_spec`). Any flavor may come with any algorithm: an
`additional-signature` can be for the flavor ns and SHA-256.
-/

namespace Dittor.Tor

open Dittor.Lib

/-- `K_CONSENSUS_DIGEST`, `K_ADDITIONAL_DIGEST`, `K_VALID_AFTER`, `K_FRESH_UNTIL`,
`K_VALID_UNTIL` and `K_ADDITIONAL_SIGNATURE` -/
def kConsensusDigest : DirectoryKeyword := .other 4

@[inherit_doc kConsensusDigest]
def kAdditionalDigest : DirectoryKeyword := .other 5

@[inherit_doc kConsensusDigest]
def kValidAfter : DirectoryKeyword := .other 6

@[inherit_doc kConsensusDigest]
def kFreshUntil : DirectoryKeyword := .other 7

@[inherit_doc kConsensusDigest]
def kValidUntil : DirectoryKeyword := .other 8

@[inherit_doc kConsensusDigest]
def kAdditionalSignature : DirectoryKeyword := .other 9

open ArgSpec TokenRule in
/-- `networkstatus_detached_signature_token_table` -/
def detachedTokenTable : List TokenRule := [
  t1Start "consensus-digest" kConsensusDigest (ge 1) .noObj,
  t0N "additional-digest" kAdditionalDigest (ge 3) .noObj,
  t1 "valid-after" kValidAfter concatArgs .noObj,
  t1 "fresh-until" kFreshUntil concatArgs .noObj,
  t1 "valid-until" kValidUntil concatArgs .noObj,
  t0N "additional-signature" kAdditionalSignature (ge 4) .needObj,
  ofSpec 1 intMax false false "directory-signature" kDirectorySignature (ge 2) .needObj]

/-- `crypto_digest_algorithm_parse_name`, of the common algorithms -/
def DigestAlgorithm.parseName (name : Bytes) : Option DigestAlgorithm :=
  if name = cstring "sha1" then some .sha1
  else if name = cstring "sha256" then some .sha256
  else none

/-- A digest in hexadecimal, of the length it should have. -/
def decodeDigest (len : ℕ) (hex : Bytes) : Option Bytes :=
  if hex.length ≠ 2 * len then none else base16Decode hex

/-- What a digest line says: algorithm, flavor and digest. -/
def digestFields (tok : DirectoryToken) : Option (DigestAlgorithm × Bytes × Bytes) :=
  if tok.tp = kConsensusDigest then
    match tok.args with
    | hexdigest :: _ => some (.sha1, cstring "ns", hexdigest)
    | _ => none
  else if tok.tp = kAdditionalDigest then
    match tok.args with
    | flavor :: algname :: hexdigest :: _ =>
      (DigestAlgorithm.parseName algname).map fun alg => (alg, flavor, hexdigest)
    | _ => none
  else none

/-- The body of the first loop. -/
def addDigest (sigs : DetachedSignatures) (tok : DirectoryToken) : Option DetachedSignatures :=
  match digestFields tok with
  | none => some sigs
  | some (alg, flavor, hexdigest) =>
    if hexdigest.length ≠ 2 * alg.length then none
    else
      -- `detached_get_digests`
      let digests := (sigs.digests.lookup flavor).getD fun _ => List.replicate 32 0
      let sigs := { sigs with digests := sigs.digests.insert flavor digests }
      if !memIsZero ((digests alg).take alg.length) then some sigs
      else
        match base16Decode hexdigest with
        | none => none
        | some d =>
          let stored := d ++ List.replicate (32 - alg.length) 0
          some { sigs with
            digests := sigs.digests.insert flavor (Function.update digests alg stored) }

/-- What a signature line says: algorithm, flavor, identity and signing key. An algorithm that
is not known is `none`. -/
def signatureFields (tok : DirectoryToken) :
    Option (Option DigestAlgorithm × Bytes × Bytes × Bytes) :=
  if tok.tp = kDirectorySignature then
    match tok.args with
    | id :: sk :: _ => some (some .sha1, cstring "ns", id, sk)
    | _ => none
  else if tok.tp = kAdditionalSignature then
    match tok.args with
    | flavor :: algname :: id :: sk :: _ =>
      some (DigestAlgorithm.parseName algname, flavor, id, sk)
    | _ => none
  else none

/-- The object of a signature token: of type `SIGNATURE`, 128 to 512 bytes. -/
def signatureOf (tok : DirectoryToken) : Option Bytes :=
  match tok.object with
  | none => none
  | some o =>
    if o.objectType ≠ cstring "SIGNATURE" ∨ o.objectBody.length < 128
      ∨ o.objectBody.length > 512 then none
    else some o.objectBody

/-- The body of the second loop. -/
def addDetachedSignature (sigs : DetachedSignatures) (tok : DirectoryToken) :
    Option DetachedSignatures :=
  match signatureFields tok with
  | none => some sigs
  | some (none, _, _, _) => some sigs
  | some (some alg, flavor, idHexdigest, skHexdigest) =>
    match signatureOf tok, decodeDigest 20 idHexdigest, decodeDigest 20 skHexdigest with
    | some signature, some idDigest, some skDigest =>
      -- `detached_get_signatures`
      let siglist := (sigs.signatures.lookup flavor).getD []
      let isDuplicate := siglist.any fun dsig =>
        dsig.alg = alg && dsig.identityDigest = idDigest && dsig.signingKeyDigest = skDigest
      let sig : DocumentSignature := ⟨idDigest, skDigest, alg, signature, false, false⟩
      some { sigs with
        signatures := sigs.signatures.insert flavor (if isDuplicate then siglist
          else siglist ++ [sig]) }
    | _, _, _ => none

section Parse

variable (D : KeyDecoder) (parseIsoTime : Bytes → Option ℤ)

/-- The time on the line of a keyword. -/
def timeOf (tokens : List DirectoryToken) (keyword : DirectoryKeyword) : Option ℤ :=
  match findOptByKeyword tokens keyword with
  | none => none
  | some tok => tok.args.head?.bind parseIsoTime

/-- `networkstatus_parse_detached_signatures` -/
def parseDetachedSignatures (s : Bytes) : Option DetachedSignatures := do
  let tokens ← (tokenizeString D detachedTokenTable {} [] s).toOption
  let sigs ← tokens.foldlM addDigest ⟨0, 0, 0, ∅, ∅⟩
  let validAfter ← timeOf parseIsoTime tokens kValidAfter
  let freshUntil ← timeOf parseIsoTime tokens kFreshUntil
  let validUntil ← timeOf parseIsoTime tokens kValidUntil
  tokens.foldlM addDetachedSignature
    { sigs with validAfter := validAfter, freshUntil := freshUntil, validUntil := validUntil }

end Parse

/-! ## What gets through -/

/-- A signature as a parser makes it. -/
structure FreshSignature (sig : DocumentSignature) : Prop where
  sizes : SignatureSizes sig
  not_good : sig.goodSignature = false
  not_bad : sig.badSignature = false

/-- All signatures of a document are fresh. -/
def FreshDocument (sigs : DetachedSignatures) : Prop :=
  ∀ flavor l, sigs.signatures.lookup flavor = some l → ∀ sig ∈ l, FreshSignature sig

theorem decodeDigest_length {len : ℕ} {hex d : Bytes} (h : decodeDigest len hex = some d) :
    d.length = len := by
  unfold decodeDigest at h
  split at h
  · cases h
  · have := base16Decode_length h
    omega

theorem signatureOf_length {tok : DirectoryToken} {signature : Bytes}
    (h : signatureOf tok = some signature) : 128 ≤ signature.length ∧ signature.length ≤ 512 := by
  unfold signatureOf at h
  split at h
  · cases h
  · split at h
    · cases h
    next hsize =>
      cases h
      omega

theorem addDetachedSignature_fresh {sigs sigs' : DetachedSignatures} {tok : DirectoryToken}
    (hfresh : FreshDocument sigs) (h : addDetachedSignature sigs tok = some sigs') :
    FreshDocument sigs' := by
  unfold addDetachedSignature at h
  split at h
  · cases h
    exact hfresh
  · cases h
    exact hfresh
  next alg flavor id sk _ =>
    split at h
    next signature idDigest skDigest hsig hid hsk =>
      cases h
      obtain ⟨hleast, hmost⟩ := signatureOf_length hsig
      have hnew : FreshSignature ⟨idDigest, skDigest, alg, signature, false, false⟩ :=
        ⟨⟨decodeDigest_length hid, decodeDigest_length hsk, hleast, hmost⟩, rfl, rfl⟩
      have hold : ∀ sig ∈ (sigs.signatures.lookup flavor).getD [], FreshSignature sig := by
        intro sig hmem
        cases hl : sigs.signatures.lookup flavor with
        | none => simp [hl] at hmem
        | some l =>
          rw [hl] at hmem
          exact hfresh flavor l hl sig hmem
      intro flavor' l hl sig hmem
      by_cases hsame : flavor' = flavor
      · subst hsame
        simp only [AList.lookup_insert] at hl
        rw [← Option.some.inj hl] at hmem
        split at hmem
        · exact hold sig hmem
        · rcases List.mem_append.mp hmem with hmem | hmem
          · exact hold sig hmem
          · rw [List.mem_singleton.mp hmem]
            exact hnew
      · simp only [AList.lookup_insert_ne hsame] at hl
        exact hfresh flavor' l hl sig hmem
    next => cases h

theorem addDigest_signatures {sigs sigs' : DetachedSignatures} {tok : DirectoryToken}
    (h : addDigest sigs tok = some sigs') : sigs'.signatures = sigs.signatures := by
  unfold addDigest at h
  split at h
  · cases h
    rfl
  · split at h
    · cases h
    · dsimp only at h
      split at h
      · cases h
        rfl
      · split at h
        · cases h
        · cases h
          rfl

/-- A property that every step of a loop keeps. -/
theorem foldlM_invariant {α β : Type} {f : α → β → Option α} {I : α → Prop}
    (hstep : ∀ {a b a'}, I a → f a b = some a' → I a') :
    ∀ {l : List β} {a a' : α}, I a → l.foldlM f a = some a' → I a'
  | [], a, a', ha, h => by
    cases h
    exact ha
  | b :: l, a, a', ha, h => by
    rw [List.foldlM_cons] at h
    obtain ⟨a'', hb, h⟩ := Option.bind_eq_some_iff.mp h
    exact foldlM_invariant hstep (hstep ha hb) h

/-- Whatever is posted, the signatures that get through have the right sizes and no flag. -/
theorem parseDetachedSignatures_spec {D : KeyDecoder} {parseIsoTime : Bytes → Option ℤ} {s : Bytes}
    {sigs : DetachedSignatures} (h : parseDetachedSignatures D parseIsoTime s = some sigs) :
    FreshDocument sigs := by
  unfold parseDetachedSignatures at h
  obtain ⟨tokens, -, h⟩ := Option.bind_eq_some_iff.mp h
  obtain ⟨sigs₁, hdigests, h⟩ := Option.bind_eq_some_iff.mp h
  obtain ⟨validAfter, -, h⟩ := Option.bind_eq_some_iff.mp h
  obtain ⟨freshUntil, -, h⟩ := Option.bind_eq_some_iff.mp h
  obtain ⟨validUntil, -, h⟩ := Option.bind_eq_some_iff.mp h
  have hempty : sigs₁.signatures = ∅ :=
    foldlM_invariant (I := fun sigs => sigs.signatures = ∅)
      (fun ha hb => (addDigest_signatures hb).trans ha) rfl hdigests
  refine foldlM_invariant addDetachedSignature_fresh ?_ h
  intro flavor l hl
  simp only [hempty] at hl
  cases hl

end Dittor.Tor

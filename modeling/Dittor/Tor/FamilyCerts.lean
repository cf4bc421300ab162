import Mathlib
import Dittor.Lib.Wire
import Dittor.Lib.Qsort
import Dittor.Lib.Smartlist
import Dittor.Tor.SignedItems

/-!
# Family certificates (`torcert.c`, `routerparse.c`)

The family ids that go into the request to the Dittor backend come from the
`family-cert` items of a descriptor. `tor_cert_parse` and `tor_cert_checksig` are
embedded down to the bytes of a certificate; the ed25519 signature check itself is
a parameter. `check_family_certs` returns two things, the sorted ids and the time at
which the first certificate expires, and `router_parse_entry_from_string` keeps the
first only (`withCerts`): what it accepts is backed by certificates that
are good in every respect but that nobody has looked at the clock
(`family_ids_backed_iff`).
-/

namespace Dittor.Tor

open Dittor.Lib

/-! ## Certificates -/

/-- `CERT_TYPE_FAMILY_V_IDENTITY` -/
def certTypeFamilyVIdentity : ℕ := 12

/-- `CERTEXT_SIGNED_WITH_KEY` -/
def certextSignedWithKey : ℕ := 4

/-- `ED25519_SIG_LEN` -/
def ed25519SigLen : ℕ := 64

/-- `u8` -/
def readU8 : Reader ℕ := (fun bytes => (bytes.headD 0).toNat) <$> Reader.take 1

/-- `u16` -/
def readU16 : Reader ℕ :=
  (fun bytes => bytes.foldl (fun acc b => acc * 256 + b.toNat) 0) <$> Reader.take 2

/-- `ed25519_cert_extension`; the body is `un_signing_key` or `un_unparsed`. -/
structure CertExtension where
  extType : ℕ
  extFlags : ℕ
  body : Bytes

/-- `ed25519_cert_extension_parse` -/
def readExtension : Reader CertExtension := do
  let extLength ← readU16
  let extType ← readU8
  let extFlags ← readU8
  let body ← Reader.take extLength
  -- a key has 32 bytes, with nothing behind them
  if extType = certextSignedWithKey ∧ extLength ≠ 32 then Reader.ofOption none
  else return ⟨extType, extFlags, body⟩

/-- `ed25519_cert` -/
structure Ed25519Cert where
  certType : ℕ
  expField : ℕ
  certKeyType : ℕ
  certifiedKey : Bytes
  ext : List CertExtension
  signature : Bytes

/-- `ed25519_cert_parse` -/
def ed25519CertParse : Reader Ed25519Cert := do
  let version ← readU8
  if version ≠ 1 then Reader.ofOption none
  else
    let certType ← readU8
    let expField ← readBe32
    let certKeyType ← readU8
    let certifiedKey ← Reader.take 32
    let nExtensions ← readU8
    let ext ← readExtension.times nExtensions
    let signature ← Reader.take ed25519SigLen
    return ⟨certType, expField, certKeyType, certifiedKey, ext, signature⟩

/-- A certificate with the time it is valid until, `valid_until`. -/
structure ParsedCert extends TorCert where
  validUntil : ℤ

/-- The loop over the extensions: the signing key, if it is included. A second one, and an
extension nobody knows that affects validation, make the certificate invalid. -/
def includedKey (ext : List CertExtension) : Option (Option Bytes) :=
  ext.foldlM (fun signingKey e =>
    if e.extType = certextSignedWithKey then
      if signingKey.isSome then none else some (some e.body)
    -- `CERTEXT_FLAG_AFFECTS_VALIDATION`
    else if e.extFlags % 2 = 1 then none
    else some signingKey) none

/-- `tor_cert_parse` -/
def torCertParse (encoded : Bytes) : Option ParsedCert := do
  let (parsed, rest) ← ed25519CertParse encoded
  guard (rest = [])
  let signingKey ← includedKey parsed.ext
  return {
    certType := parsed.certType
    signingKeyIncluded := signingKey.isSome
    signingKey := signingKey.getD (List.replicate 32 0)
    signedKey := parsed.certifiedKey
    encoded := encoded
    validUntil := parsed.expField * 3600 }

section Check

/-- `ed25519_checksig` of a key, a text and a signature. -/
abbrev Checksig := Bytes → Bytes → Bytes → Bool

variable (checksig : Checksig)

/-- The signature of a certificate by a key: everything but the last 64 bytes is signed. -/
def ParsedCert.signedBy (cert : ParsedCert) (key : Bytes) : Bool :=
  let signedLen := cert.encoded.length - ed25519SigLen
  checksig key (cert.encoded.take signedLen) (cert.encoded.drop signedLen)

/-- `tor_cert_checksig`; the included key is used when no key is given, and with `now = 0` the
expiration time is not checked. -/
def torCertChecksig (cert : ParsedCert) (pubkey : Option Bytes) (now : ℤ) : Bool :=
  match pubkey.or (if cert.signingKeyIncluded then some cert.signingKey else none) with
  | none => false
  | some key => !(now ≠ 0 && cert.validUntil < now) && cert.signedBy checksig key

/-- `"ed25519:%s"` of the base64 of a key. -/
def FamilyId.ofKey (key : Bytes) : FamilyId where
  key := base64EncodeNopad key
  base64 _ h := isBase64_encodeNopad h

/-- `check_one_family_cert`: the id and when it expires. -/
def checkOneFamilyCert (identityKey certBody : Bytes) : Option (FamilyId × ℤ) := do
  let cert ← torCertParse certBody
  guard (cert.certType = certTypeFamilyVIdentity)
  guard cert.signingKeyIncluded
  guard (cert.signedKey = identityKey)
  guard (torCertChecksig checksig cert none 0)
  return (FamilyId.ofKey cert.signingKey, cert.validUntil)

/-- `TIME_MAX` -/
def timeMax : ℤ := 9223372036854775807

/-- One round of the loop of `check_family_certs`. -/
def familyCertStep (identityKey : Bytes) (acc : List FamilyId × ℤ) (tok : DirectoryToken) :
    Option (List FamilyId × ℤ) := do
  let objectBody ← tok.body
  let (thisId, thisExpiration) ← checkOneFamilyCert checksig identityKey objectBody
  return (acc.1 ++ [thisId], min acc.2 thisExpiration)

/-- `strcmp` of two ids. -/
def FamilyId.compare (f g : FamilyId) : ℤ := strcmp f.text g.text

/-- `check_family_certs`: `family_ids_out` and `family_expiration_out`. -/
def checkFamilyCerts (Q : Qsort) (tokens : List DirectoryToken) (identityKey : Bytes) :
    Option (List FamilyId × ℤ) :=
  if tokens = [] then some ([], timeMax)
  else
    (tokens.foldlM (familyCertStep checksig identityKey) ([], timeMax)).map fun (ids, expiration) =>
      (smartlistUniq FamilyId.compare (Q.sort FamilyId.compare ids), expiration)

/-- The library with certificates as they are: `router_parse_entry_from_string` does not look at
`family_expiration`. -/
def withCerts {Policy : Type} (L : RouterLib Policy) (Q : Qsort) : RouterLib Policy :=
  { L with
    torCertParse := fun encoded => (torCertParse encoded).map ParsedCert.toTorCert
    certChecksig := fun cert key =>
      (torCertParse cert.encoded).any fun dated => torCertChecksig checksig dated key 0
    certExpires := fun cert => ((torCertParse cert.encoded).map ParsedCert.validUntil).getD timeMax
    checkFamilyCerts := fun tokens identityKey =>
      (checkFamilyCerts checksig Q tokens identityKey).map Prod.fst }

end Check

/-! ## What the checks say -/

section Lists

variable {α β : Type*} {r : α → β → Prop}

theorem forall₂_left : ∀ {l : List α} {m : List β}, List.Forall₂ r l m → ∀ {a}, a ∈ l →
    ∃ b ∈ m, r a b := by
  intro l m h
  induction h with
  | nil => intro a ha; cases ha
  | @cons a₀ b₀ l m hab h ih =>
    intro a ha
    rcases List.mem_cons.mp ha with rfl | ha
    · exact ⟨b₀, List.mem_cons_self, hab⟩
    · obtain ⟨b, hb, hr⟩ := ih ha
      exact ⟨b, List.mem_cons_of_mem b₀ hb, hr⟩

theorem forall₂_right {l : List α} {m : List β} (h : List.Forall₂ r l m) {b : β} (hb : b ∈ m) :
    ∃ a ∈ l, r a b :=
  forall₂_left h.flip hb

end Lists

section Spec

variable {checksig : Checksig} {identityKey : Bytes}

/-- A family certificate of this identity, but for its age: type, signing key, certified key and
signature. -/
structure FamilyCert (checksig : Checksig) (identityKey : Bytes) (tok : DirectoryToken)
    (cert : ParsedCert) : Prop where
  parsed : tok.body.bind torCertParse = some cert
  type : cert.certType = certTypeFamilyVIdentity
  included : cert.signingKeyIncluded = true
  certifies : cert.signedKey = identityKey
  signed : cert.signedBy checksig cert.signingKey = true

/-- One round passes exactly for such a certificate, and adds its id. -/
theorem familyCertStep_iff {acc acc' : List FamilyId × ℤ} {tok : DirectoryToken} :
    familyCertStep checksig identityKey acc tok = some acc' ↔
      ∃ cert, FamilyCert checksig identityKey tok cert
        ∧ acc' = (acc.1 ++ [FamilyId.ofKey cert.signingKey], min acc.2 cert.validUntil) := by
  constructor
  · intro h
    obtain ⟨objectBody, hbody, h⟩ := Option.bind_eq_some_iff.mp h
    obtain ⟨⟨thisId, thisExpiration⟩, hone, h⟩ := Option.bind_eq_some_iff.mp h
    obtain ⟨cert, hparse, hone⟩ := Option.bind_eq_some_iff.mp hone
    obtain ⟨htype, hone⟩ := guard_bind_eq_some.mp hone
    obtain ⟨hincluded, hone⟩ := guard_bind_eq_some.mp hone
    obtain ⟨hkey, hone⟩ := guard_bind_eq_some.mp hone
    obtain ⟨hsig, hone⟩ := guard_bind_eq_some.mp hone
    obtain ⟨rfl, rfl⟩ := Prod.mk.inj (Option.some.inj hone)
    have hsigned : cert.signedBy checksig cert.signingKey = true := by
      simpa [torCertChecksig, hincluded] using hsig
    refine ⟨cert, ⟨?_, htype, hincluded, hkey, hsigned⟩, (Option.some.inj h).symm⟩
    rw [hbody, Option.bind_some]
    exact hparse
  · rintro ⟨cert, hcert, rfl⟩
    obtain ⟨objectBody, hbody, hparse⟩ := Option.bind_eq_some_iff.mp hcert.parsed
    refine Option.bind_eq_some_iff.mpr ⟨objectBody, hbody, Option.bind_eq_some_iff.mpr
      ⟨(FamilyId.ofKey cert.signingKey, cert.validUntil), ?_, rfl⟩⟩
    refine Option.bind_eq_some_iff.mpr ⟨cert, hparse, guard_bind_eq_some.mpr ⟨hcert.type,
      guard_bind_eq_some.mpr ⟨hcert.included, guard_bind_eq_some.mpr ⟨hcert.certifies,
        guard_bind_eq_some.mpr ⟨?_, rfl⟩⟩⟩⟩⟩
    simpa [torCertChecksig, hcert.included] using hcert.signed

/-- The loop passes exactly when every item is such a certificate, and collects their ids. -/
theorem familyCertLoop_iff : ∀ {tokens : List DirectoryToken} {acc acc' : List FamilyId × ℤ},
    tokens.foldlM (familyCertStep checksig identityKey) acc = some acc' ↔
      ∃ certs, List.Forall₂ (FamilyCert checksig identityKey) tokens certs
        ∧ acc' = (acc.1 ++ certs.map fun cert => FamilyId.ofKey cert.signingKey,
          (certs.map ParsedCert.validUntil).foldl min acc.2) := by
  intro tokens
  induction tokens with
  | nil =>
    intro acc acc'
    constructor
    · intro h
      exact ⟨[], .nil, by rw [← Option.some.inj h]; simp⟩
    · rintro ⟨certs, hcerts, rfl⟩
      cases hcerts
      simp
  | cons tok tokens ih =>
    intro acc acc'
    rw [List.foldlM_cons]
    constructor
    · intro h
      obtain ⟨acc₁, hstep, h⟩ := Option.bind_eq_some_iff.mp h
      obtain ⟨cert, hcert, rfl⟩ := familyCertStep_iff.mp hstep
      obtain ⟨certs, hcerts, rfl⟩ := ih.mp h
      exact ⟨cert :: certs, .cons hcert hcerts, by simp⟩
    · rintro ⟨certs, hcerts, rfl⟩
      cases hcerts with
      | cons hcert hcerts =>
        refine Option.bind_eq_some_iff.mpr ⟨_, familyCertStep_iff.mpr ⟨_, hcert, rfl⟩, ?_⟩
        exact ih.mpr ⟨_, hcerts, by simp⟩

theorem FamilyId.compare_eq_zero {f g : FamilyId} (h : f.compare g = 0) : f = g := by
  have htext : f.text = g.text := strcmp_eq_zero.mp h
  obtain ⟨fkey, fbase⟩ := f
  obtain ⟨gkey, gbase⟩ := g
  have hkey : fkey = gkey := List.append_cancel_left htext
  subst hkey
  rfl

theorem FamilyId.consistentOn (l : List FamilyId) : ConsistentOn FamilyId.compare l where
  total a _ b _ := strcmp_total a.text b.text
  trans a _ b _ c _ := strcmp_trans a.text b.text c.text

/-- **What `check_family_certs` returns**: it passes exactly when every item is a certificate of
the identity, and then the ids are those of the certificates, strictly sorted. -/
theorem checkFamilyCerts_spec {Q : Qsort} {tokens : List DirectoryToken} {ids : List FamilyId}
    {expiration : ℤ} (h : checkFamilyCerts checksig Q tokens identityKey = some (ids, expiration)) :
    (∀ tok ∈ tokens, ∃ cert, FamilyCert checksig identityKey tok cert)
      ∧ ids.Pairwise (fun f g => f.compare g < 0)
      ∧ ∀ id, id ∈ ids ↔ ∃ tok ∈ tokens, ∃ cert, FamilyCert checksig identityKey tok cert
        ∧ id = FamilyId.ofKey cert.signingKey := by
  unfold checkFamilyCerts at h
  split at h
  next hnil =>
    obtain ⟨rfl, -⟩ := Prod.mk.inj (Option.some.inj h)
    subst hnil
    simp
  next =>
    obtain ⟨⟨all, exp⟩, hloop, hres⟩ := Option.map_eq_some_iff.mp h
    obtain ⟨rfl, -⟩ := Prod.mk.inj hres
    obtain ⟨certs, hcerts, hall⟩ := familyCertLoop_iff.mp hloop
    obtain ⟨rfl, -⟩ := Prod.mk.inj hall
    rw [List.nil_append]
    refine ⟨?_, ?_, ?_⟩
    · intro tok htok
      obtain ⟨cert, -, hcert⟩ := forall₂_left hcerts htok
      exact ⟨cert, hcert⟩
    · have hlt : ∀ a b c : FamilyId, a.compare b < 0 → b.compare c < 0 → a.compare c < 0 :=
        fun _ _ _ => strcmp_lt_trans
      exact smartlistUniq_sorted hlt (Q.sorted (FamilyId.consistentOn _))
    · intro id
      rw [mem_smartlistUniq fun a b => FamilyId.compare_eq_zero, Q.mem_sort, List.mem_map]
      constructor
      · rintro ⟨cert, hmem, rfl⟩
        obtain ⟨tok, htok, hcert⟩ := forall₂_right hcerts hmem
        exact ⟨tok, htok, cert, hcert, rfl⟩
      · rintro ⟨tok, htok, cert, hcert, rfl⟩
        obtain ⟨cert', hmem, hcert'⟩ := forall₂_left hcerts htok
        -- an item holds one certificate
        have hsame : cert = cert' := Option.some.inj (hcert.parsed.symm.trans hcert'.parsed)
        exact ⟨cert', hmem, by rw [hsame]⟩

end Spec

/-! ## Accepted descriptors -/

section Accepted

variable {Policy : Type}

/-- The family ids of the fields are what `check_family_certs` returns for the items, with the
identity key of the signing certificate. -/
theorem routerFields_familyIds {L : RouterLib Policy} {tokens : List DirectoryToken}
    {router : RouterInfo Policy} (h : routerFields L tokens = some router) :
    L.checkFamilyCerts (findAllByKeyword tokens .familyCert) router.signingKeyCert.signingKey
      = some router.familyIds := by
  unfold routerFields at h
  -- the items read before the keys, then those between the keys and the family certificates
  iterate 14 obtain ⟨_, -, h⟩ := Option.bind_eq_some_iff.mp h
  obtain ⟨keys, -, h⟩ := Option.bind_eq_some_iff.mp h
  iterate 6 obtain ⟨_, -, h⟩ := Option.bind_eq_some_iff.mp h
  obtain ⟨familyIds, hids, h⟩ := Option.bind_eq_some_iff.mp h
  rw [← Option.some.inj h]
  exact hids

/-- The `family-cert` items of a text. -/
def familyCertItems (D : KeyDecoder) (o : EntryOptions) (text : Bytes) : List DirectoryToken :=
  findAllByKeyword ((entryTokens D o text).getD []) .familyCert

/-- The certificate in an item has expired. -/
def Expired (now : ℤ) (tok : DirectoryToken) : Prop :=
  ∃ cert, tok.body.bind torCertParse = some cert ∧ cert.validUntil < now

/-- The family ids of a router are sorted, without duplicates, and each is the id of a live
family certificate of the router's identity; and none of the items is anything else. -/
structure FamilyBacked (checksig : Checksig) (now : ℤ) (items : List DirectoryToken)
    (router : RouterInfo Policy) : Prop where
  sorted : router.familyIds.Pairwise fun f g => f.compare g < 0
  backed : ∀ id ∈ router.familyIds, ∃ tok ∈ items, ∃ cert,
    FamilyCert checksig router.signingKeyCert.signingKey tok cert ∧ now ≤ cert.validUntil
      ∧ id.text = cstring "ed25519:" ++ base64EncodeNopad cert.signingKey
  noBad : ∀ tok ∈ items, ∃ cert,
    FamilyCert checksig router.signingKeyCert.signingKey tok cert ∧ now ≤ cert.validUntil

variable {L : RouterLib Policy} {D : KeyDecoder} {K : SignatureChecks} {o : EntryOptions}
  {proxy : Bytes → Option Dittor.Crypto.Text} {text : Bytes} {info : RouterInfo Policy}

/-- An accepted text has been tokenized, and the fields come from its items. -/
theorem accepted_fields (h : (routerParseEntryFromString L D K o proxy text).router = some info) :
    ∃ tokens router, entryTokens D o text = some tokens ∧ routerFields L tokens = some router
      ∧ info.familyIds = router.familyIds ∧ info.signingKeyCert = router.signingKeyCert := by
  obtain ⟨⟨annotations, s⟩, hsplit⟩ : ∃ found, splitAnnotations (trimEnd text) = some found := by
    cases hsplit : splitAnnotations (trimEnd text) with
    | some found => exact ⟨found, rfl⟩
    | none =>
      unfold routerParseEntryFromString at h
      rw [hsplit] at h
      cases h
  obtain ⟨tokens, router, args, hread, -, hresult⟩ := routerParse_accepted hsplit h
  rw [hresult] at h
  obtain ⟨out, T, ed, rsa, hitems⟩ := readEntry_spec (splitAnnotations_router hsplit) hread
  refine ⟨tokens, router, ?_, hitems.fields, ?_, ?_⟩
  · unfold readEntry at hread
    obtain ⟨out', hout, hread⟩ := Option.bind_eq_some_iff.mp hread
    obtain ⟨-, hread⟩ := guard_bind_eq_some.mp hread
    obtain ⟨-, hread⟩ := guard_bind_eq_some.mp hread
    obtain ⟨tokens', htokens, hread⟩ := Option.bind_eq_some_iff.mp hread
    iterate 8 obtain ⟨_, -, hread⟩ := Option.bind_eq_some_iff.mp hread
    obtain ⟨rfl, -⟩ := Prod.mk.inj (Option.some.inj hread)
    exact Option.bind_eq_some_iff.mpr ⟨_, hsplit, Option.bind_eq_some_iff.mpr ⟨_, hout, htokens⟩⟩
  · rw [← Option.some.inj h]
  · rw [← Option.some.inj h]

/-- **Family ids are backed by certificates, live ones exactly when none has expired.** For every
accepted descriptor and every time: the ids are sorted, without duplicates, each the id of a live
family certificate in the descriptor, and no item is a bad certificate, if and only if no family
certificate of the descriptor has expired. -/
theorem family_ids_backed_iff {checksig : Checksig} {Q : Qsort}
    (h : (routerParseEntryFromString (withCerts checksig L Q) D K o proxy text).router = some info)
    (now : ℤ) :
    FamilyBacked checksig now (familyCertItems D o text) info ↔
      ∀ tok ∈ familyCertItems D o text, ¬ Expired now tok := by
  obtain ⟨tokens, router, htokens, hfields, hids, hcert⟩ := accepted_fields h
  have hitems : familyCertItems D o text = findAllByKeyword tokens .familyCert := by
    rw [familyCertItems, htokens]
    rfl
  have hcheck := routerFields_familyIds hfields
  obtain ⟨⟨ids, expiration⟩, hcheck, rfl⟩ := Option.map_eq_some_iff.mp hcheck
  rw [← hitems, ← hcert] at hcheck
  obtain ⟨hall, hsorted, hmem⟩ := checkFamilyCerts_spec hcheck
  constructor
  · rintro hbacked tok htok ⟨cert, hparsed, hexpired⟩
    obtain ⟨cert', hcert', hlive⟩ := hbacked.noBad tok htok
    have hsame : cert = cert' := Option.some.inj (hparsed.symm.trans hcert'.parsed)
    rw [hsame] at hexpired
    omega
  · intro hlive
    have hage : ∀ tok ∈ familyCertItems D o text, ∀ cert,
        FamilyCert checksig info.signingKeyCert.signingKey tok cert → now ≤ cert.validUntil := by
      intro tok htok cert hcert
      by_contra hlt
      exact hlive tok htok ⟨cert, hcert.parsed, by omega⟩
    refine ⟨?_, ?_, ?_⟩
    · rw [hids]
      exact hsorted
    · intro id hid
      rw [hids] at hid
      obtain ⟨tok, htok, cert, hcert, rfl⟩ := (hmem id).mp hid
      exact ⟨tok, htok, cert, hcert, hage tok htok cert hcert, rfl⟩
    · intro tok htok
      obtain ⟨cert, hcert⟩ := hall tok htok
      exact ⟨cert, hcert, hage tok htok cert hcert⟩

end Accepted

/-! ## A descriptor with one family certificate -/

section Samples

/-- A certificate of a key, with a signing key in an extension or without. -/
def certBytes (certType expField : ℕ) (certifiedKey : Char) (signingKey : Option Char) : Bytes :=
  [1, UInt8.ofNat certType] ++ be32 expField ++ [1] ++ List.replicate 32 (byte certifiedKey)
    ++ (match signingKey with
      | none => [0]
      | some key => [1, 0, 32, 4, 0] ++ List.replicate 32 (byte key))
    ++ List.replicate 64 0

/-- It as an object. -/
def certObject (cert : Bytes) : Bytes :=
  cstring "-----BEGIN ED25519 CERT-----\n" ++ base64Encode cert ++ cstring "-----END ED25519 CERT-----\n"

/-- The descriptor of the identity `MM…M` with a certificate by the family key `FF…F` that expires
`expField` hours after the epoch. -/
def familyEntry (expField : ℕ) : Bytes :=
  [cstring "router r 192.0.2.1 9001 0 0\n", cstring "identity-ed25519\n",
    certObject (certBytes certTypeIdSigning 500000 'S' (some 'M')),
    cstring "master-key-ed25519 ", List.replicate 32 (byte 'M'), cstring "\nntor-onion-key N\n",
    cstring "ntor-onion-key-crosscert 0\n", certObject (certBytes certTypeOnionId 500000 'M' none),
    cstring "family-cert\n",
    certObject (certBytes certTypeFamilyVIdentity expField 'M' (some 'F')),
    cstring "signing-key\n", sampleObject "RSA PUBLIC KEY" "AAAA",
    cstring "published 2024-01-01 00:00:00\n", cstring "bandwidth 1 1 1\n",
    cstring "proto Link=5\n", cstring "reject *:*\n",
    cstring "dittor-proof TorRelayConsensus2026 1 2 3 4 5 6 7\n",
    cstring "router-sig-ed25519 S\n", cstring "router-signature\n",
    sampleObject "SIGNATURE" "AAAA"].flatten

/-- The call on it, with signatures that are all good. -/
def familyParse (expField : ℕ) : EntryResult Unit :=
  routerParseEntryFromString (withCerts (fun _ _ _ => true) sampleLib Qsort.insertion) anyKeys
    anyChecks {} (fun _ => none) (familyEntry expField)

/-- When its family certificates expire. -/
def familyTimes (expField : ℕ) : List (Option ℤ) :=
  (familyCertItems anyKeys {} (familyEntry expField)).map fun tok =>
    (tok.body.bind torCertParse).map ParsedCert.validUntil

theorem familyEntry_accepted :
    (familyParse 500000).router.isSome = true ∧ (familyParse 0).router.isSome = true := by
  decide +kernel

theorem familyTimes_eq :
    familyTimes 500000 = [some 1800000000] ∧ familyTimes 0 = [some 0] := by
  decide +kernel

/-- **An expired family certificate counts**: on 1 January 2024 the descriptor with a certificate
that expired in 1970 is accepted. -/
theorem expired_family_accepted :
    ∃ info, (familyParse 0).router = some info
      ∧ ¬ FamilyBacked (fun _ _ _ => true) 1704067200
        (familyCertItems anyKeys {} (familyEntry 0)) info := by
  obtain ⟨info, hinfo⟩ := Option.isSome_iff_exists.mp familyEntry_accepted.2
  refine ⟨info, hinfo, fun hbacked => ?_⟩
  have htimes := familyTimes_eq.2
  unfold familyTimes at htimes
  obtain ⟨tok, rest, hitems, htok, -⟩ := List.map_eq_cons_iff.mp htimes
  obtain ⟨cert, hcert, hlive⟩ := hbacked.noBad tok (by rw [hitems]; exact List.mem_cons_self)
  rw [hcert.parsed, Option.map_some, Option.some.injEq] at htok
  omega

/-- With a certificate that is good until 2027, it is backed. -/
theorem live_family_backed :
    ∃ info, (familyParse 500000).router = some info
      ∧ FamilyBacked (fun _ _ _ => true) 1704067200
        (familyCertItems anyKeys {} (familyEntry 500000)) info := by
  obtain ⟨info, hinfo⟩ := Option.isSome_iff_exists.mp familyEntry_accepted.1
  refine ⟨info, hinfo, (family_ids_backed_iff hinfo 1704067200).mpr ?_⟩
  rintro tok htok ⟨cert, hparsed, hexpired⟩
  have hmem : (tok.body.bind torCertParse).map ParsedCert.validUntil ∈ familyTimes 500000 :=
    List.mem_map_of_mem htok
  rw [familyTimes_eq.1, hparsed, Option.map_some, List.mem_singleton, Option.some.injEq] at hmem
  omega

end Samples

end Dittor.Tor

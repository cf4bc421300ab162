import Dittor.Lib.Decimal
import Dittor.Tor.Base64
import Dittor.Tor.SignedRange

/-!
# Parsing a descriptor (`routerparse.c`)

`router_parse_entry_from_string`: which part of the text is the descriptor, what is hashed for
the two signatures, the items, the fields that are read from them, the request to the Dittor
backend and the check of the signatures. The functions of other modules that are called on the
way (addresses, dates, keys, certificates, exit policies) are `RouterLib`; none of them sees
more than the arguments or the object of an item.

The fields never depend on the two signature items (`routerFields_append`).
-/

namespace Dittor.Tor

open Dittor.Lib Dittor.Crypto

/-! ## Fields -/

/-- `tor_cert_t` -/
structure TorCert where
  certType : ℕ
  signingKeyIncluded : Bool
  signingKey : Bytes
  signedKey : Bytes
  encoded : Bytes
deriving DecidableEq

/-- `CERT_TYPE_ID_SIGNING` -/
def certTypeIdSigning : ℕ := 4

/-- `CERT_TYPE_ONION_ID` -/
def certTypeOnionId : ℕ := 10

/-- A digest of SHA-1. -/
abbrev Digest20 := {d : Bytes // d.length = 20}

/-- What the parser calls in other modules. -/
structure RouterLib (Policy : Type) where
  isLegalNickname : Bytes → Bool
  isLegalNicknameOrHexdigest : Bytes → Bool
  torInetAton : Bytes → Option ℕ
  /-- `router_purpose_from_string`, `none` for `ROUTER_PURPOSE_UNKNOWN` -/
  routerPurposeFromString : Bytes → Option ℕ
  parseIsoTime : Bytes → Option ℤ
  /-- `crypto_pk_public_exponent_ok` and `crypto_pk_get_digest`, of a key in an object -/
  publicExponentOk : Bytes → Bool
  pkGetDigest : Bytes → Option Digest20
  /-- `curve25519_public_from_base64` and `ed25519_public_from_base64` -/
  curve25519FromBase64 : Bytes → Option Bytes
  ed25519FromBase64 : Bytes → Option Bytes
  torCertParse : Bytes → Option TorCert
  /-- `check_tap_onion_key_crosscert` of a cross-certificate, for the onion key, the signing key
  and the identity -/
  checkTapCrosscert : Bytes → Bytes → Bytes → Bytes → Bool
  /-- `ed25519_public_key_from_curve25519_public_key` -/
  ed25519FromCurve25519 : Bytes → Bool → Option Bytes
  /-- `ed25519_checksig` of a certificate, by a key or its own; and when it expires -/
  certChecksig : TorCert → Option Bytes → Bool
  certExpires : TorCert → ℤ
  /-- `router_add_exit_policy`, and `policy_expand_private` at the end -/
  noPolicy : Policy
  addExitPolicy : Policy → DirectoryToken → Option Policy
  expandPrivate : Policy → Policy
  isRejectStar : Policy → Bool
  parseShortPolicy : Bytes → Option Policy
  shortIsRejectStar : Policy → Bool
  findSingleIpv6Orport : List DirectoryToken → Option (Bytes × ℕ)
  /-- `check_family_certs`, for the identity -/
  checkFamilyCerts : List DirectoryToken → Bytes → Option (List FamilyId)
  digest256FromBase64 : Bytes → Option Bytes

/-- `routerinfo_t`, what is read from the items -/
structure RouterInfo (Policy : Type) where
  nickname : Bytes
  ipv4Addr : ℕ
  ipv4Orport : ℤ
  ipv4Dirport : ℤ
  bandwidthrate : ℤ
  bandwidthburst : ℤ
  bandwidthcapacity : ℤ
  purpose : ℕ
  uptime : ℤ
  isHibernating : Bool
  publishedOn : ℤ
  tapOnionPkey : Option Bytes
  onionCurve25519Pkey : Option Bytes
  identityPkey : Bytes
  identityDigest : Digest20
  signingKeyCert : TorCert
  certExpirationTime : ℤ
  platform : Option Bytes
  protocolList : Option Bytes
  contactInfo : Option Bytes
  ipv6 : Option (Bytes × ℕ)
  exitPolicy : Policy
  ipv6ExitPolicy : Option Policy
  policyIsRejectStar : Bool
  declaredFamily : List Bytes
  familyIds : List FamilyId
  cachesExtraInfo : Bool
  allowSingleHopExits : Bool
  extraInfoDigest : Option Bytes
  extraInfoDigest256 : Option Bytes
  wantsToBeHsDir : Bool
  supportsTunnelledDirRequests : Bool

section Fields

variable {Policy : Type} (L : RouterLib Policy) (tokens : List DirectoryToken)

/-- The bytes that `base16_decode` has written when it stops at something invalid. -/
def base16Written : Bytes → Bytes
  | a :: b :: src =>
    match hexDecodeDigit a, hexDecodeDigit b with
    | some v1, some v2 => UInt8.ofNat (v1 * 16 + v2) :: base16Written src
    | _, _ => []
  | _ => []

/-- `find_all_by_keyword` -/
def findAllByKeyword (keyword : DirectoryKeyword) : List DirectoryToken :=
  tokens.filter fun tok => tok.tp = keyword

/-- `find_all_exitpolicy` -/
def findAllExitpolicy : List DirectoryToken :=
  tokens.filter fun tok => tok.tp = .accept || tok.tp = .accept6 || tok.tp = .reject
    || tok.tp = .reject6

/-- `smartlist_pos` of the first token of a kind -/
def posOf (keyword : DirectoryKeyword) : Option ℕ := tokens.findIdx? fun tok => tok.tp = keyword

/-- `LONG_MAX` -/
def longMax : ℤ := 9223372036854775807

/-- `INT_MAX` -/
def intMaxZ : ℤ := 2147483647

/-- An item that may be missing, and must be well formed if it is there. -/
def optionalItem {α : Type} (keyword : DirectoryKeyword) (read : DirectoryToken → Option α) :
    Option (Option α) :=
  match findOptByKeyword tokens keyword with
  | none => some none
  | some tok => (read tok).map some

/-- The object of a token. -/
def DirectoryToken.body (tok : DirectoryToken) : Option Bytes := tok.object.map (·.objectBody)

/-- The type of its object. -/
def DirectoryToken.objectType (tok : DirectoryToken) : Option Bytes :=
  tok.object.map TokenObject.objectType

/-- The keys and their certificates: the signing certificate, the keys, and when they expire. -/
structure RouterKeys where
  tapOnionPkey : Option Bytes
  onionCurve25519Pkey : Option Bytes
  identityPkey : Bytes
  identityDigest : Digest20
  signingKeyCert : TorCert
  expires : ℤ

/-- The block with the ed25519 certificates, up to the signature on the descriptor. -/
def routerKeys : Option RouterKeys := do
  let tapOnionPkey ← optionalItem tokens .onionKey fun tok => do
    let key ← tok.body
    guard (L.publicExponentOk key)
    return key
  let onionCurve25519Pkey ← optionalItem tokens .onionKeyNtor fun tok =>
    tok.args.head?.bind L.curve25519FromBase64
  let signingTok ← findOptByKeyword tokens .signingKey
  let identityPkey ← signingTok.body
  let identityDigest ← L.pkGetDigest identityPkey
  let edCertTok ← findOptByKeyword tokens .identityEd25519
  let masterKeyTok ← findOptByKeyword tokens .masterKeyEd25519
  let ccNtorTok ← findOptByKeyword tokens .ntorOnionKeyCrosscert
  let ccTapTok := findOptByKeyword tokens .onionKeyCrosscert
  guard (ccTapTok.isNone = tapOnionPkey.isNone)
  let cert ← edCertTok.body.bind L.torCertParse
  guard (cert.certType = certTypeIdSigning ∧ cert.signingKeyIncluded)
  guard (ccTapTok.all fun tok => tok.objectType = some (cstring "CROSSCERT")
    && L.checkTapCrosscert (tok.body.getD []) (tapOnionPkey.getD []) cert.signingKey
      identityDigest.val)
  -- next to the `router` item
  let edCertTokenPos ← posOf tokens .identityEd25519
  let routerTokenPos ← posOf tokens .router
  guard (edCertTokenPos = routerTokenPos + 1 ∨ edCertTokenPos + 1 = routerTokenPos)
  guard (edCertTok.objectType = some (cstring "ED25519 CERT"))
  guard (ccNtorTok.objectType = some (cstring "ED25519 CERT"))
  let signBit ← ccNtorTok.args.head?
  guard (signBit = cstring "0" ∨ signBit = cstring "1")
  let pkey ← masterKeyTok.args.head?.bind L.ed25519FromBase64
  guard (cert.signingKey = pkey)
  let ntorCcCert ← ccNtorTok.body.bind L.torCertParse
  guard (ntorCcCert.certType = certTypeOnionId ∧ ntorCcCert.signedKey = cert.signingKey)
  let ntorCcPk ← onionCurve25519Pkey.bind fun k =>
    L.ed25519FromCurve25519 k (signBit = cstring "1")
  guard (L.certChecksig cert none ∧ L.certChecksig ntorCcCert (some ntorCcPk))
  return ⟨tapOnionPkey, onionCurve25519Pkey, identityPkey, identityDigest, cert,
    min (L.certExpires cert) (L.certExpires ntorCcCert)⟩

/-- The fields of the descriptor. -/
def routerFields : Option (RouterInfo Policy) := do
  let tok ← findOptByKeyword tokens .router
  let nickname ← tok.args[0]?
  guard (L.isLegalNickname nickname)
  let ipv4Addr ← tok.args[1]?.bind L.torInetAton
  let ipv4Orport ← tok.args[2]?.bind (torParseLong 0 65535)
  let ipv4Dirport ← tok.args[4]?.bind (torParseLong 0 65535)
  let tok ← findOptByKeyword tokens .bandwidth
  let bandwidthrate ← tok.args[0]?.bind (torParseLong 1 intMaxZ)
  let bandwidthburst ← tok.args[1]?.bind (torParseLong 0 intMaxZ)
  let bandwidthcapacity ← tok.args[2]?.bind (torParseLong 0 intMaxZ)
  -- `ROUTER_PURPOSE_GENERAL` is zero
  let purpose ← optionalItem tokens .purpose fun tok =>
    tok.args.head?.bind L.routerPurposeFromString
  let uptime ← optionalItem tokens .uptime fun tok => tok.args.head?.bind (torParseLong 0 longMax)
  let hibernating := (findOptByKeyword tokens .hibernating).bind fun tok =>
    tok.args.head?.bind (torParseLong 0 longMax)
  let tok ← findOptByKeyword tokens .published
  let publishedOn ← tok.args.head?.bind L.parseIsoTime
  let keys ← routerKeys L tokens
  let _ ← optionalItem tokens .fingerprint fun tok => do
    let arg ← tok.args.head?
    let d ← base16Decode (arg.filter fun b => b ≠ byte ' ')
    guard (d = keys.identityDigest.val)
  let platform := (findOptByKeyword tokens .platform).bind fun tok => tok.args.head?
  let protocolList := (findOptByKeyword tokens .proto).bind fun tok => tok.args.head?
  let contactInfo := (findOptByKeyword tokens .contact).bind fun tok => tok.args.head?
  guard ((findOptByKeyword tokens .reject6).isNone ∧ (findOptByKeyword tokens .accept6).isNone)
  let ipv6 := L.findSingleIpv6Orport (findAllByKeyword tokens .orAddress)
  guard (findAllExitpolicy tokens ≠ [])
  let exitPolicy ← (findAllExitpolicy tokens).foldlM L.addExitPolicy L.noPolicy
  let ipv6ExitPolicy ← optionalItem tokens .ipv6Policy fun tok =>
    tok.args.head?.bind L.parseShortPolicy
  let declaredFamily ← optionalItem tokens .family fun tok => do
    guard (tok.args.all L.isLegalNicknameOrHexdigest)
    return tok.args
  let familyIds ← L.checkFamilyCerts (findAllByKeyword tokens .familyCert)
    keys.signingKeyCert.signingKey
  let extraInfo := findOptByKeyword tokens .extraInfoDigest
  return {
    nickname, ipv4Addr, ipv4Orport, ipv4Dirport, bandwidthrate, bandwidthburst, bandwidthcapacity
    purpose := purpose.getD 0
    uptime := uptime.getD 0
    isHibernating := hibernating.getD 0 ≠ 0
    publishedOn
    tapOnionPkey := keys.tapOnionPkey
    onionCurve25519Pkey := keys.onionCurve25519Pkey
    identityPkey := keys.identityPkey
    identityDigest := keys.identityDigest
    signingKeyCert := keys.signingKeyCert
    certExpirationTime := keys.expires
    platform, protocolList, contactInfo, ipv6
    exitPolicy := L.expandPrivate exitPolicy
    ipv6ExitPolicy
    policyIsRejectStar :=
      L.isRejectStar (L.expandPrivate exitPolicy) && ipv6ExitPolicy.all L.shortIsRejectStar
    declaredFamily := declaredFamily.getD []
    familyIds
    cachesExtraInfo := (findOptByKeyword tokens .cachesExtraInfo).isSome
    allowSingleHopExits := (findOptByKeyword tokens .allowSingleHopExits).isSome
    extraInfoDigest := extraInfo.bind fun tok => tok.args[0]?.bind fun hex =>
      if hex.length = 40 then some (base16Written hex) else none
    extraInfoDigest256 := extraInfo.bind fun tok => tok.args[1]?.bind L.digest256FromBase64
    wantsToBeHsDir := (findOptByKeyword tokens .hiddenServiceDir).isSome
    supportsTunnelledDirRequests :=
      (findOptByKeyword tokens .dirTunnelled).isSome || 0 < ipv4Dirport }

/-- The arguments of the `dittor-proof` item, where the block accepts it. -/
def dittorProofArgs : Option (List Bytes) :=
  (findOptByKeyword tokens .optDittorProof).bind fun tok =>
    if 8 ≤ tok.args.length ∧ tok.args.head? = some (cstring "TorRelayConsensus2026") then
      some tok.args
    else none

end Fields

/-! ## The request -/

/-- `family_ids_str` -/
def familyIdsText (familyIds : List FamilyId) : Bytes :=
  if familyIds = [] then cstring "-" else [byte ','].intercalate (familyIds.map FamilyId.text)

/-- `validation_payload` -/
def validationPayload {Policy : Type} (args : List Bytes) (router : RouterInfo Policy) : Bytes :=
  snprintf payloadSize (cstring "VALIDATE " ++ [byte '|'].intercalate
    (args.take 8 ++ [base16Encode router.identityDigest.val, familyIdsText router.familyIds])
    ++ [byte '\n'])

/-- It is the request of the descriptor with these fields. -/
theorem validationPayload_eq {Policy : Type} (args : List Bytes) (router : RouterInfo Policy)
    {d : Descriptor} (hdigest : d.identityDigest = router.identityDigest.val)
    (hfamily : d.familyIds = router.familyIds) :
    validationPayload args router = snprintf payloadSize (validationLine args d) := by
  rw [validationPayload, validationLine, Descriptor.nodeIdHex, Descriptor.familyIdsStr, hdigest,
    hfamily]
  rfl

/-! ## The entry -/

/-- The final newlines but one are cut off. -/
def trimEnd (s : Bytes) : Bytes :=
  if 2 < s.length ∧ s.getLast? = some (byte '\n') ∧ s.dropLast.getLast? = some (byte '\n') then
    trimEnd s.dropLast
  else s
termination_by s.length
decreasing_by
  rw [List.length_dropLast]
  omega

/-- Annotations, and the descriptor from its `router` line on. -/
def splitAnnotations (s : Bytes) : Option (Bytes × Bytes) :=
  match memstr (cstring "\nrouter ") s with
  | none => if (cstring "router ").isPrefixOf s then some ([], s) else none
  | some (text, next) => some (text ++ [byte '\n'], next.drop 1)

/-- What the RSA signature covers: `router_get_router_hash`. -/
def rsaRange (s : Bytes) : Option Bytes :=
  (routerGetHashImplHelper (cstring "router ") (cstring "\nrouter-signature") (byte '\n') s).map
    Prod.snd

/-- What the ed25519 signature covers. -/
def edRange (s : Bytes) : Option Bytes :=
  (routerGetHashImplHelper (cstring "router ") (cstring "\nrouter-sig-ed25519") (byte ' ') s).map
    Prod.snd

/-- The two signatures: whether `check[2]` is good for a key, a text and an argument, and
whether `check_signature_token` passes for a key, a text and an object. -/
structure SignatureChecks where
  edOk : Bytes → Bytes → Bytes → Bool
  rsaOk : Bytes → Bytes → Bytes → Bool

/-- The arguments of the call besides the text. -/
structure EntryOptions where
  allowAnnotations : Bool := false
  prependAnnotations : Option Bytes := none

/-- What a call comes to: the request, if one is made, and the router that is returned. -/
structure EntryResult (Policy : Type) where
  request : Option Bytes
  router : Option (RouterInfo Policy)

section Entry

variable {Policy : Type} (L : RouterLib Policy) (D : KeyDecoder) (K : SignatureChecks)

/-- The tokens of the annotations, prepended or in front of the descriptor. -/
def annotationTokens (o : EntryOptions) (annotations : Bytes) : Option (List DirectoryToken) := do
  let out ← match o.prependAnnotations with
    | none => some []
    | some text =>
      (tokenizeString D routerdescTokenTable { noCheck := true } [] text).toOption
  if annotations = [] then return out
  else
    guard o.allowAnnotations
    (tokenizeString D routerdescTokenTable { noCheck := true } out annotations).toOption

/-- `flags` -/
def EntryOptions.flags (o : EntryOptions) : TokenizeFlags where
  annotationsOk := o.allowAnnotations || o.prependAnnotations.isSome
  noNewAnnotations := o.prependAnnotations.isSome

/-- The tokens of annotations and descriptor, if all checks up to the request pass, and the
fields. -/
def readEntry (o : EntryOptions) (annotations s : Bytes) :
    Option (List DirectoryToken × RouterInfo Policy) := do
  let out ← annotationTokens D o annotations
  guard (memstr (cstring "\nproto ") s).isSome
  guard (rsaRange s).isSome
  let tokens ← (tokenizeString D routerdescTokenTable o.flags out s).toOption
  guard (2 ≤ tokens.length)
  let router ← routerFields L tokens
  -- the ed25519 signature is the item before the last
  let edSigTokPos ← posOf tokens .routerSigEd25519
  guard (edSigTokPos + 2 = tokens.length)
  let edSigTok ← tokens[edSigTokPos]?
  let signed ← edRange s
  let signature ← edSigTok.args.head?
  guard (K.edOk router.signingKeyCert.signedKey signed signature)
  return (tokens, router)

/-- The items of a text, annotations included. -/
def entryTokens (o : EntryOptions) (text : Bytes) : Option (List DirectoryToken) := do
  let (annotations, s) ← splitAnnotations (trimEnd text)
  let out ← annotationTokens D o annotations
  (tokenizeString D routerdescTokenTable o.flags out s).toOption

/-- The RSA signature. -/
def rsaSignatureOk (tokens : List DirectoryToken) (router : RouterInfo Policy) (s : Bytes) : Bool :=
  match findOptByKeyword tokens .routerSignature, rsaRange s with
  | some tok, some signed =>
    tok.objectType = some (cstring "SIGNATURE")
      && K.rsaOk router.identityPkey signed (tok.body.getD [])
  | _, _ => false

/-- `router_parse_entry_from_string`; `proxy` is the answer of the backend to a request, `none`
if there is none. -/
def routerParseEntryFromString (o : EntryOptions) (proxy : Bytes → Option Text) (text : Bytes) :
    EntryResult Policy :=
  match splitAnnotations (trimEnd text) with
  | none => ⟨none, none⟩
  | some (annotations, s) =>
    match readEntry L D K o annotations s with
    | none => ⟨none, none⟩
    | some (tokens, router) =>
      match dittorProofArgs tokens with
      | none => ⟨none, none⟩
      | some args =>
        let request := validationPayload args router
        let verified := (proxy request).all fun response =>
          strstrip response = "VALID".toList
            || strstrip response = "Added to Tor relay consensus directory.".toList
        if verified ∧ router.ipv4Orport ≠ 0 ∧ rsaSignatureOk K tokens router s then
          ⟨some request, some { router with
            platform := some (router.platform.getD (cstring "<unknown>")) }⟩
        else ⟨some request, none⟩

end Entry

/-! ## The fields do not depend on the signature items -/

section Append

variable {Policy : Type} {L : RouterLib Policy} {tokens : List DirectoryToken}
  {ed rsa : DirectoryToken}

/-- The two signature items. -/
structure SignatureItems (ed rsa : DirectoryToken) : Prop where
  ed : ed.tp = .routerSigEd25519
  rsa : rsa.tp = .routerSignature

variable (h : SignatureItems ed rsa)
include h

theorem findOptByKeyword_append {keyword : DirectoryKeyword} (hed : keyword ≠ .routerSigEd25519)
    (hrsa : keyword ≠ .routerSignature) :
    findOptByKeyword (tokens ++ [ed, rsa]) keyword = findOptByKeyword tokens keyword := by
  have hnone : [ed, rsa].find? (fun tok => tok.tp = keyword) = none := by
    rw [List.find?_eq_none]
    intro tok htok
    rcases List.mem_pair.mp htok with rfl | rfl
    · simpa [h.ed] using hed.symm
    · simpa [h.rsa] using hrsa.symm
  rw [findOptByKeyword, List.find?_append, hnone, Option.or_none]
  rfl

theorem findAllByKeyword_append {keyword : DirectoryKeyword} (hed : keyword ≠ .routerSigEd25519)
    (hrsa : keyword ≠ .routerSignature) :
    findAllByKeyword (tokens ++ [ed, rsa]) keyword = findAllByKeyword tokens keyword := by
  unfold findAllByKeyword
  rw [List.filter_append, List.filter_eq_nil_iff (l := [ed, rsa]) |>.mpr, List.append_nil]
  intro tok htok
  rcases List.mem_pair.mp htok with rfl | rfl
  · simpa [h.ed] using hed.symm
  · simpa [h.rsa] using hrsa.symm

theorem findAllExitpolicy_append :
    findAllExitpolicy (tokens ++ [ed, rsa]) = findAllExitpolicy tokens := by
  unfold findAllExitpolicy
  rw [List.filter_append, List.filter_eq_nil_iff (l := [ed, rsa]) |>.mpr, List.append_nil]
  intro tok htok
  rcases List.mem_pair.mp htok with rfl | rfl
  · simp [h.ed]
  · simp [h.rsa]

theorem posOf_append {keyword : DirectoryKeyword} (hed : keyword ≠ .routerSigEd25519)
    (hrsa : keyword ≠ .routerSignature) :
    posOf (tokens ++ [ed, rsa]) keyword = posOf tokens keyword := by
  have hnone : [ed, rsa].findIdx? (fun tok => tok.tp = keyword) = none := by
    rw [List.findIdx?_eq_none_iff]
    intro tok htok
    rcases List.mem_pair.mp htok with rfl | rfl
    · simpa [h.ed] using hed.symm
    · simpa [h.rsa] using hrsa.symm
  unfold posOf
  rw [List.findIdx?_append, hnone]
  cases tokens.findIdx? fun tok => tok.tp = keyword <;> rfl

theorem optionalItem_append {α : Type} {keyword : DirectoryKeyword}
    (hed : keyword ≠ .routerSigEd25519) (hrsa : keyword ≠ .routerSignature)
    (read : DirectoryToken → Option α) :
    optionalItem (tokens ++ [ed, rsa]) keyword read = optionalItem tokens keyword read := by
  unfold optionalItem
  rw [findOptByKeyword_append h hed hrsa]

theorem routerKeys_append : routerKeys L (tokens ++ [ed, rsa]) = routerKeys L tokens := by
  unfold routerKeys
  simp (disch := decide) only [optionalItem_append h, findOptByKeyword_append h, posOf_append h]

/-- **The fields are those of the items in front of the signatures.** -/
theorem routerFields_append : routerFields L (tokens ++ [ed, rsa]) = routerFields L tokens := by
  unfold routerFields
  simp (disch := decide) only [optionalItem_append h, findOptByKeyword_append h,
    findAllByKeyword_append h, findAllExitpolicy_append h, routerKeys_append h]

theorem dittorProofArgs_append : dittorProofArgs (tokens ++ [ed, rsa]) = dittorProofArgs tokens := by
  unfold dittorProofArgs
  rw [findOptByKeyword_append h (by decide) (by decide)]

end Append

/-! ## An accepted call -/

theorem guard_bind_eq_some {α : Type} {c : Prop} [Decidable c] {x : Option α} {r : α} :
    ((guard c : Option Unit) >>= fun _ => x) = some r ↔ c ∧ x = some r := by
  by_cases hc : c
  · simp [guard, hc]
  · simp [guard, hc]

theorem toOption_eq_some {ε α : Type} {x : Except ε α} {a : α} :
    x.toOption = some a ↔ x = .ok a := by
  cases x with
  | error e => simp [Except.toOption]
  | ok b => simp [Except.toOption]

section Accepted

variable {Policy : Type} {L : RouterLib Policy} {D : KeyDecoder} {K : SignatureChecks}

/-- What an accepted call returns. -/
theorem routerParse_accepted {o : EntryOptions} {proxy : Bytes → Option Text}
    {text annotations s : Bytes} {info : RouterInfo Policy}
    (hsplit : splitAnnotations (trimEnd text) = some (annotations, s))
    (h : (routerParseEntryFromString L D K o proxy text).router = some info) :
    ∃ tokens router args, readEntry L D K o annotations s = some (tokens, router)
      ∧ dittorProofArgs tokens = some args
      ∧ routerParseEntryFromString L D K o proxy text = ⟨some (validationPayload args router),
        some { router with platform := some (router.platform.getD (cstring "<unknown>")) }⟩ := by
  unfold routerParseEntryFromString at h ⊢
  rw [hsplit] at h ⊢
  dsimp only at h ⊢
  cases hread : readEntry L D K o annotations s with
  | none =>
    rw [hread] at h
    cases h
  | some found =>
    obtain ⟨tokens, router⟩ := found
    rw [hread] at h
    dsimp only at h ⊢
    cases hargs : dittorProofArgs tokens with
    | none =>
      rw [hargs] at h
      cases h
    | some args =>
      rw [hargs] at h
      dsimp only at h ⊢
      split at h
      next hok => exact ⟨tokens, router, args, rfl, hargs, if_pos hok⟩
      next => cases h

/-- Where annotations are not allowed, there are none. -/
theorem annotationTokens_plain {annotations : Bytes} {out : List DirectoryToken}
    (h : annotationTokens D {} annotations = some out) : annotations = [] ∧ out = [] := by
  by_cases hnil : annotations = []
  · subst hnil
    exact ⟨rfl, (Option.some.inj h).symm⟩
  · have hnone : annotationTokens D {} annotations = none := by
      unfold annotationTokens
      simp [hnil, guard]
    rw [hnone] at h
    cases h

/-- A text with nothing in front of its `router` line is left whole. -/
theorem splitAnnotations_nil {text s : Bytes} (h : splitAnnotations text = some ([], s)) :
    s = text := by
  unfold splitAnnotations at h
  cases hmem : memstr (cstring "\nrouter ") text with
  | none =>
    rw [hmem] at h
    dsimp only at h
    split at h
    next => exact (Prod.mk.inj (Option.some.inj h)).2.symm
    next => cases h
  | some found =>
    rw [hmem] at h
    exact absurd (Prod.mk.inj (Option.some.inj h)).1 (by simp)

/-- **An accepted call without annotations**: its items are those of the text up to its last
newline, and it has sent the request for the proof among them. -/
theorem routerParse_plain {proxy : Bytes → Option Text} {text : Bytes} {info : RouterInfo Policy}
    (h : (routerParseEntryFromString L D K {} proxy text).router = some info) :
    ∃ (tokens : List DirectoryToken) (router : RouterInfo Policy) (args : List Bytes),
      tokenizeString D routerdescTokenTable {} [] (trimEnd text) = .ok tokens
      ∧ dittorProofArgs tokens = some args
      ∧ (routerParseEntryFromString L D K {} proxy text).request
        = some (validationPayload args router) := by
  cases hsplit : splitAnnotations (trimEnd text) with
  | none =>
    unfold routerParseEntryFromString at h
    rw [hsplit] at h
    cases h
  | some found =>
    obtain ⟨annotations, s⟩ := found
    obtain ⟨tokens, router, args, hread, hargs, hresult⟩ := routerParse_accepted hsplit h
    unfold readEntry at hread
    obtain ⟨out, hout, hread⟩ := Option.bind_eq_some_iff.mp hread
    obtain ⟨-, hread⟩ := guard_bind_eq_some.mp hread
    obtain ⟨-, hread⟩ := guard_bind_eq_some.mp hread
    obtain ⟨tokens', htokens, hread⟩ := Option.bind_eq_some_iff.mp hread
    obtain ⟨-, hread⟩ := guard_bind_eq_some.mp hread
    obtain ⟨router', -, hread⟩ := Option.bind_eq_some_iff.mp hread
    obtain ⟨pos, -, hread⟩ := Option.bind_eq_some_iff.mp hread
    obtain ⟨-, hread⟩ := guard_bind_eq_some.mp hread
    obtain ⟨edTok, -, hread⟩ := Option.bind_eq_some_iff.mp hread
    obtain ⟨signed, -, hread⟩ := Option.bind_eq_some_iff.mp hread
    obtain ⟨signature, -, hread⟩ := Option.bind_eq_some_iff.mp hread
    obtain ⟨-, hread⟩ := guard_bind_eq_some.mp hread
    obtain ⟨rfl, rfl⟩ := Prod.mk.inj (Option.some.inj hread)
    obtain ⟨rfl, rfl⟩ := annotationTokens_plain hout
    obtain rfl := splitAnnotations_nil hsplit
    exact ⟨tokens', router', args, toOption_eq_some.mp htokens, hargs, by rw [hresult]⟩

end Accepted

/-! ## A library of other modules -/

section Samples

/-- A library for the samples: two certificates, an identity, one policy. -/
def sampleLib : RouterLib Unit where
  isLegalNickname nickname := nickname ≠ []
  isLegalNicknameOrHexdigest nickname := nickname ≠ []
  torInetAton address := if address = cstring "192.0.2.1" then some 3221225985 else none
  routerPurposeFromString _ := none
  parseIsoTime time := if time = cstring "2024-01-01 00:00:00" then some 1704067200 else none
  publicExponentOk _ := true
  pkGetDigest _ := some ⟨List.replicate 20 (byte 'I'), by decide⟩
  curve25519FromBase64 key := some key
  ed25519FromBase64 key := some key
  torCertParse body :=
    if body = [0, 0, 0] then some ⟨certTypeIdSigning, true, cstring "M", cstring "S", body⟩
    else some ⟨certTypeOnionId, false, [], cstring "M", body⟩
  checkTapCrosscert _ _ _ _ := false
  ed25519FromCurve25519 key _ := some key
  certChecksig _ _ := true
  certExpires _ := 1704153600
  noPolicy := ()
  addExitPolicy _ _ := some ()
  expandPrivate _ := ()
  isRejectStar _ := true
  parseShortPolicy _ := none
  shortIsRejectStar _ := true
  findSingleIpv6Orport _ := none
  checkFamilyCerts certs _ := if certs = [] then some [] else none
  digest256FromBase64 _ := none

/-- Signatures that are good for every text. -/
def anyChecks : SignatureChecks := ⟨fun _ _ _ => true, fun _ _ _ => true⟩

end Samples

end Dittor.Tor

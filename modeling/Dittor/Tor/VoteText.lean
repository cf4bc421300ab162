import Mathlib
import Dittor.Tor.PendingConsensus
import Dittor.Tor.SignedRange
import Dittor.Tor.VoteParse
import Dittor.Tor.Votes

/-!
# The text of a vote (`ns_parse.c`)

`networkstatus_parse_vote_from_string` for a vote, from its text: where the header, the router
entries and the footer end, and where another vote may begin. `VoteParse` has what is checked of
the tokens; the certificate in the header and the two cryptographic functions are parameters
(`VoteCrypto`).

The text may go on behind the vote. Only a vote that is accepted says where: at the first line
behind its entries that begins another one, which is past the start of the text
(`parseVoteText_shorter`), or else at the end (`parseVoteText_next`).
-/

namespace Dittor.Tor

open Dittor.Lib

/-! ## Tables -/

/-- The items of a certificate. -/
inductive CertItem where
  | version | identityKey | published | expires | signingKey | crosscert | certification | address
deriving DecidableEq, Repr

/-- `K_DIR_KEY_CERTIFICATE_VERSION` and the others -/
def CertItem.keyword : CertItem → DirectoryKeyword
  | .version => .other 36
  | .identityKey => .other 37
  | .published => .other 38
  | .expires => .other 39
  | .signingKey => .other 40
  | .crosscert => .other 41
  | .certification => .other 42
  | .address => .other 43

/-- `K_SIGNING_CERT_ED` -/
def kSigningCertEd : DirectoryKeyword := .other 44

/-- `K_COMMIT` -/
def kCommit : DirectoryKeyword := .other 45

open ArgSpec TokenRule

/-- `AUTHCERT_MEMBERS` -/
def authcertMembers : List TokenRule := [
  t1 "dir-key-certificate-version" CertItem.version.keyword (ge 1) .noObj,
  t1 "dir-identity-key" CertItem.identityKey.keyword noArgs .needKey,
  t1 "dir-key-published" CertItem.published.keyword concatArgs .noObj,
  t1 "dir-key-expires" CertItem.expires.keyword concatArgs .noObj,
  t1 "dir-signing-key" CertItem.signingKey.keyword noArgs .needKey,
  t1 "dir-key-crosscert" CertItem.crosscert.keyword noArgs .needObj,
  t1 "dir-key-certification" CertItem.certification.keyword noArgs .needObj,
  t01 "dir-address" CertItem.address.keyword (ge 1) .noObj]

/-- `networkstatus_token_table` -/
def networkstatusTokenTable : List TokenRule := [
  t1Start "network-status-version" kNetworkStatusVersion (ge 1) .noObj,
  t1 "vote-status" kVoteStatus (ge 1) .noObj,
  t1 "published" .published concatArgs .noObj,
  t1 "valid-after" kValidAfter concatArgs .noObj,
  t1 "fresh-until" kFreshUntil concatArgs .noObj,
  t1 "valid-until" kValidUntil concatArgs .noObj,
  t1 "voting-delay" kVotingDelay (ge 2) .noObj,
  t1 "known-flags" kKnownFlags args .noObj,
  t01 "params" kParams args .noObj,
  t0N "fingerprint" .fingerprint concatArgs .noObj,
  t01 "signing-ed25519" kSigningCertEd noArgs .needObj,
  t01 "shared-rand-participate" kSrFlag noArgs .noObj,
  t0N "shared-rand-commit" kCommit (ge 3) .noObj,
  t01 "shared-rand-previous-value" kPreviousSrv (eq 2) .noObj,
  t01 "shared-rand-current-value" kCurrentSrv (eq 2) .noObj,
  t0N "package" kPackage concatArgs .noObj,
  t01 "recommended-client-protocols" ProtocolSet.recommendedClient.keyword concatArgs .noObj,
  t01 "recommended-relay-protocols" ProtocolSet.recommendedRelay.keyword concatArgs .noObj,
  t01 "required-client-protocols" ProtocolSet.requiredClient.keyword concatArgs .noObj,
  t01 "required-relay-protocols" ProtocolSet.requiredRelay.keyword concatArgs .noObj]
  ++ authcertMembers ++ [
  t0N "opt" .opt concatArgs .objOk,
  t1 "contact" .contact concatArgs .noObj,
  t1 "dir-source" kDirSource (ge 6) .noObj,
  t01 "legacy-dir-key" kLegacyDirKey (ge 1) .noObj,
  t1 "known-flags" kKnownFlags concatArgs .noObj,
  t01 "client-versions" kClientVersions concatArgs .noObj,
  t01 "server-versions" kServerVersions concatArgs .noObj,
  t1 "consensus-methods" kConsensusMethods (ge 1) .noObj]

/-- `rtrstatus_token_table` -/
def rtrstatusTokenTable : List TokenRule := [
  t01 "p" kP concatArgs .noObj,
  t1 "r" kR (ge 7) .noObj,
  t0N "a" kA (ge 1) .noObj,
  t1 "s" kS args .noObj,
  t01 "v" kV concatArgs .noObj,
  t01 "w" kW args .noObj,
  t0N "m" kM concatArgs .noObj,
  t0N "id" kId (ge 2) .noObj,
  t1 "pr" .proto concatArgs .noObj,
  t0N "opt" .opt concatArgs .objOk]

/-! ## Places in the text -/

/-- `tor_memstr` for a text at the start of a line other than the first: what stands before, with
the newline, and from the line on. -/
def memline (text : String) (s : Bytes) : Option (Bytes × Bytes) :=
  (memstr (cstring "\n" ++ cstring text) s).map fun r => (r.1 ++ [byte '\n'], r.2.drop 1)

/-- The start of the footer or of a signature, whichever comes first, or else the end. -/
def findFooter (s : Bytes) : Bytes × Bytes :=
  match memline "directory-footer" s, memline "directory-signature" s with
  | some footer, some sig => if footer.1.length ≤ sig.1.length then footer else sig
  | some footer, none => footer
  | none, some sig => sig
  | none, none => (s, [])

/-- `find_start_of_next_routerstatus`: what stands before it, and from there on. In front of the
next entry a footer or a signature is taken instead. -/
def findStartOfNextRouterstatus (s : Bytes) : Bytes × Bytes :=
  let eos := (memline "r " s).getD (s, [])
  let start := findFooter eos.1
  (start.1, start.2 ++ eos.2)

theorem memline_spec {text : String} {s before next : Bytes}
    (h : memline text s = some (before, next)) :
    s = before ++ next ∧ before ≠ [] ∧ cstring text <+: next := by
  obtain ⟨⟨front, behind⟩, hmem, heq⟩ := Option.map_eq_some_iff.mp h
  obtain ⟨rfl, rfl⟩ := Prod.mk.inj heq
  obtain ⟨rfl, rest, rfl⟩ := memstr_spec hmem
  have hnewline : cstring "\n" = [byte '\n'] := by decide
  refine ⟨?_, by simp, ?_⟩
  · simp [hnewline]
  · rw [hnewline, List.append_assoc, List.singleton_append, List.drop_succ_cons, List.drop_zero]
    exact List.prefix_append _ _

theorem findFooter_spec {s : Bytes} (hs : s ≠ []) :
    s = (findFooter s).1 ++ (findFooter s).2 ∧ (findFooter s).1 ≠ [] := by
  have hline : ∀ {text r}, memline text s = some r → s = r.1 ++ r.2 ∧ r.1 ≠ [] := fun h =>
    ⟨(memline_spec h).1, (memline_spec h).2.1⟩
  unfold findFooter
  cases hfooter : memline "directory-footer" s with
  | none =>
    cases hsig : memline "directory-signature" s with
    | none => exact ⟨(List.append_nil s).symm, hs⟩
    | some sig => exact hline hsig
  | some footer =>
    cases hsig : memline "directory-signature" s with
    | none => exact hline hfooter
    | some sig =>
      dsimp only
      by_cases hle : footer.1.length ≤ sig.1.length
      · rw [if_pos hle]
        exact hline hfooter
      · rw [if_neg hle]
        exact hline hsig

/-- The text is cut in two, the first of them not empty if the text is not. -/
theorem findStartOfNextRouterstatus_spec {s : Bytes} (hs : s ≠ []) :
    s = (findStartOfNextRouterstatus s).1 ++ (findStartOfNextRouterstatus s).2
      ∧ (findStartOfNextRouterstatus s).1 ≠ [] := by
  unfold findStartOfNextRouterstatus
  cases h : memline "r " s with
  | none =>
    obtain ⟨hsplit, hne⟩ := findFooter_spec hs
    exact ⟨by simpa using hsplit, hne⟩
  | some eos =>
    obtain ⟨hcut, hne, -⟩ := memline_spec h
    obtain ⟨hsplit, hfirst⟩ := findFooter_spec hne
    refine ⟨?_, hfirst⟩
    rw [Option.getD_some, ← List.append_assoc, ← hsplit, ← hcut]

theorem findStartOfNextRouterstatus_lt {s : Bytes} (hs : s ≠ []) :
    (findStartOfNextRouterstatus s).2.length < s.length := by
  obtain ⟨hsplit, hne⟩ := findStartOfNextRouterstatus_spec hs
  have hlen := congrArg List.length hsplit
  rw [List.length_append] at hlen
  have := List.length_pos_iff.mpr hne
  omega

/-- The texts of the router entries, and what is behind them. -/
def routerstatusTexts (s : Bytes) : List Bytes × Bytes :=
  if _h : (cstring "r ").isPrefixOf s then
    let rest := routerstatusTexts (findStartOfNextRouterstatus s).2
    ((findStartOfNextRouterstatus s).1 :: rest.1, rest.2)
  else ([], s)
termination_by s.length
decreasing_by
  refine findStartOfNextRouterstatus_lt fun hnil => ?_
  rw [hnil] at _h
  exact absurd _h (by decide)

theorem routerstatusTexts_entry {s : Bytes} (h : (cstring "r ").isPrefixOf s = true) :
    routerstatusTexts s = ((findStartOfNextRouterstatus s).1
        :: (routerstatusTexts (findStartOfNextRouterstatus s).2).1,
      (routerstatusTexts (findStartOfNextRouterstatus s).2).2) := by
  rw [routerstatusTexts, dif_pos h]

theorem routerstatusTexts_end {s : Bytes} (h : ¬ (cstring "r ").isPrefixOf s = true) :
    routerstatusTexts s = ([], s) := by
  rw [routerstatusTexts, dif_neg h]

theorem routerstatusTexts_suffix (s : Bytes) : (routerstatusTexts s).2 <:+ s := by
  induction s using routerstatusTexts.induct with
  | case1 s h ih =>
    rw [routerstatusTexts_entry h]
    have hne : s ≠ [] := fun hnil => absurd (hnil ▸ h) (by decide)
    obtain ⟨hsplit, -⟩ := findStartOfNextRouterstatus_spec hne
    exact ih.trans ⟨_, hsplit.symm⟩
  | case2 s h => rw [routerstatusTexts_end h]

/-- The footer, and the vote behind it if one begins. -/
def splitFooter (s : Bytes) : Bytes × Bytes :=
  (memline "network-status-version " s).getD (s, [])

/-! ## The parser -/

/-- What the parser uses of other modules: SHA-1, `authority_cert_parse_from_string` with the end of
the certificate, `authority_cert_is_denylisted`, and `check_signature_token` for a digest, a
signature and a key. -/
structure VoteCrypto (Key : Type) where
  sha1 : Bytes → Bytes
  parseCert : Bytes → Option (AuthorityCert Key)
  isDenylisted : AuthorityCert Key → Bool
  signatureOk : Bytes → Bytes → Key → Bool

section Parser

variable {Key : Type} (L : VoteLib) (D : KeyDecoder) (C : VoteCrypto Key) (testing : Bool)

/-- The loop over the signatures of the footer, of which there is one for an algorithm: the
algorithms so far. -/
def readVoteSignature (cert : AuthorityCert Key) (digest : Bytes) (algs : List DigestAlgorithm)
    (tok : DirectoryToken) : Option (List DigestAlgorithm) :=
  if tok.tp ≠ kDirectorySignature then some algs
  else
    match footerFields tok.args with
    | none => some algs
    | some (alg, idHexdigest, skHexdigest) =>
      match signatureOf tok, decodeDigest 20 idHexdigest, decodeDigest 20 skHexdigest with
      | some signature, some declaredIdentity, some _ =>
        -- the voter has the identity of the certificate
        if declaredIdentity ≠ cert.identityDigest then none
        else if alg ∈ algs then some algs
        else if C.signatureOk digest signature cert.signingKey then some (algs ++ [alg])
        else none
      | _, _, _ => none

/-- The footer of a vote, with its one signature. -/
def voteFooterOk (cert : AuthorityCert Key) (digest footer : Bytes) : Bool :=
  match tokenizeString D footerTokenTable {} [] footer with
  | .error _ => false
  | .ok tokens =>
    footerOk tokens && (tokens.foldlM (readVoteSignature C cert digest) []).any (·.length = 1)

/-- The vote, from the bytes that are hashed and the texts of the header, the entries and the
footer. -/
def parseVoteParts (signed header : Bytes) (entryTexts : List Bytes) (footer : Bytes) :
    Option Vote := do
  let digest := C.sha1 signed
  let tokens ← (tokenizeString D networkstatusTokenTable {} [] header).toOption
  let (_, certText) ← memline "dir-key-certificate-version" header
  let cert ← C.parseCert certText
  let entries ← entryTexts.mapM fun text =>
    (tokenizeString D rtrstatusTokenTable {} [] text).toOption
  let ns ← parseVote L testing {
    tokens := tokens
    certIdentity := some cert.identityDigest
    certDenylisted := C.isDenylisted cert
    sha1 := digest
    entries := entries
    footerOk := voteFooterOk D C cert digest footer }
  let published ← timeOf L.parseIsoTime tokens .published
  some ⟨cert.identityDigest, published, ns.validAfter, digest⟩

/-- `networkstatus_parse_vote_from_string(…, NS_TYPE_VOTE)`: the vote, and what is behind it. -/
def parseVoteText (s : Bytes) : Option (Vote × Bytes) :=
  match routerGetHashImplHelper (cstring "network-status-version")
      (cstring "\ndirectory-signature") (byte ' ') s with
  | none => none
  | some (_, signed) =>
    let (header, body) := findStartOfNextRouterstatus s
    let (entryTexts, behind) := routerstatusTexts body
    let (footer, next) := splitFooter behind
    (parseVoteParts L D C testing signed header entryTexts footer).map fun vote => (vote, next)

variable {L D C testing} {s next : Bytes} {vote : Vote}

/-- Where the text goes on behind a vote that is accepted. -/
theorem parseVoteText_next (h : parseVoteText L D C testing s = some (vote, next)) :
    s ≠ [] ∧ next = (splitFooter
      (routerstatusTexts (findStartOfNextRouterstatus s).2).2).2 := by
  unfold parseVoteText at h
  split at h
  next => cases h
  next before signed hsigned =>
    obtain ⟨vote', -, heq⟩ := Option.map_eq_some_iff.mp h
    obtain ⟨-, rfl⟩ := Prod.mk.inj heq
    refine ⟨fun hnil => ?_, rfl⟩
    rw [hnil] at hsigned
    cases hsigned

theorem splitFooter_suffix (s : Bytes) : (splitFooter s).2 <:+ s := by
  unfold splitFooter
  cases h : memline "network-status-version " s with
  | none => exact List.nil_suffix
  | some r => exact ⟨r.1, (memline_spec h).1.symm⟩

/-- Another vote may begin there. -/
theorem splitFooter_next (s : Bytes) :
    (splitFooter s).2 = [] ∨ startsWith "network-status-version " (splitFooter s).2 = true := by
  unfold splitFooter
  cases h : memline "network-status-version " s with
  | none => exact .inl rfl
  | some r => exact .inr (List.isPrefixOf_iff_prefix.mpr (memline_spec h).2.2)

/-- **Progress**: the text goes on behind its start. -/
theorem parseVoteText_shorter (h : parseVoteText L D C testing s = some (vote, next)) :
    next.length < s.length := by
  obtain ⟨hs, rfl⟩ := parseVoteText_next h
  have hfooter := (splitFooter_suffix (routerstatusTexts (findStartOfNextRouterstatus s).2).2).length_le
  have hentries := (routerstatusTexts_suffix (findStartOfNextRouterstatus s).2).length_le
  have hheader := findStartOfNextRouterstatus_lt hs
  omega

end Parser

end Dittor.Tor

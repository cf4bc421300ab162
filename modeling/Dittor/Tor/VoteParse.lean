import Dittor.Tor.DetachedParse
import Dittor.Tor.Protover
import Dittor.Tor.RouterEntry
import Dittor.Tor.SharedRandom

/-!
# What a parsed vote says (`ns_parse.c`)

`networkstatus_parse_vote_from_string` for a vote, from the tokens of its header and of its
router entries on, with every check of it that looks at a value. What it asks of others is in
`VoteDocument`: the identity of the certificate in the header, the digest of the signed part,
and whether the footer with its one signature was found to be good. Reading a time and an
address is a parameter (`VoteLib`).

What a vote that is accepted says of itself is all that the computation of a consensus knows of
the votes it gets from other authorities.
-/

namespace Dittor.Tor

open Dittor.Lib

/-! ## Keywords -/

/-- `K_NETWORK_STATUS_VERSION` -/
def kNetworkStatusVersion : DirectoryKeyword := .other 10

/-- `K_VOTE_STATUS` -/
def kVoteStatus : DirectoryKeyword := .other 11

/-- `K_VOTING_DELAY` -/
def kVotingDelay : DirectoryKeyword := .other 12

/-- `K_KNOWN_FLAGS` -/
def kKnownFlags : DirectoryKeyword := .other 13

/-- `K_PARAMS` -/
def kParams : DirectoryKeyword := .other 14

/-- `K_CONSENSUS_METHODS` -/
def kConsensusMethods : DirectoryKeyword := .other 15

/-- `K_CLIENT_VERSIONS` -/
def kClientVersions : DirectoryKeyword := .other 16

/-- `K_SERVER_VERSIONS` -/
def kServerVersions : DirectoryKeyword := .other 17

/-- `K_PACKAGE` -/
def kPackage : DirectoryKeyword := .other 18

/-- `K_DIR_SOURCE` -/
def kDirSource : DirectoryKeyword := .other 19

/-- `K_LEGACY_DIR_KEY` -/
def kLegacyDirKey : DirectoryKeyword := .other 20

/-- `K_SR_FLAG` -/
def kSrFlag : DirectoryKeyword := .other 21

/-- `K_PREVIOUS_SRV` -/
def kPreviousSrv : DirectoryKeyword := .other 22

/-- `K_CURRENT_SRV` -/
def kCurrentSrv : DirectoryKeyword := .other 23

/-- The four sets of subprotocols that are voted on. -/
inductive ProtocolSet where
  | recommendedClient | recommendedRelay | requiredClient | requiredRelay
deriving DecidableEq, Repr

/-- `K_RECOMMENDED_CLIENT_PROTOCOLS` and the other three -/
def ProtocolSet.keyword : ProtocolSet → DirectoryKeyword
  | .recommendedClient => .other 24
  | .recommendedRelay => .other 25
  | .requiredClient => .other 26
  | .requiredRelay => .other 27

/-- `K_R` -/
def kR : DirectoryKeyword := .other 28

/-- `K_A` -/
def kA : DirectoryKeyword := .other 29

/-- `K_S` -/
def kS : DirectoryKeyword := .other 30

/-- `K_V` -/
def kV : DirectoryKeyword := .other 31

/-- `K_W` -/
def kW : DirectoryKeyword := .other 32

/-- `K_M` -/
def kM : DirectoryKeyword := .other 33

/-- `K_ID` -/
def kId : DirectoryKeyword := .other 34

/-- `K_P` -/
def kP : DirectoryKeyword := .other 35

/-! ## Votes -/

/-- `vote_routerstatus_t` and the `routerstatus_t` in it. A value that comes with a flag which
says whether it is there is an option; an address is a number. -/
structure VoteRouterStatus where
  nickname : Bytes
  identityDigest : Bytes
  descriptorDigest : Bytes
  publishedOn : ℤ
  ipv4Addr : ℕ
  ipv4Orport : ℕ
  ipv4Dirport : ℕ
  ipv6 : Option (Bytes × ℕ)
  /-- A bit for each of the known flags of the vote. -/
  flags : ℕ
  version : Option Bytes
  protocols : Option Bytes
  bandwidthKb : Option ℕ
  measuredBwKb : Option ℕ
  guardfractionPercentage : Option ℕ
  exitsummary : Option Bytes
  /-- The texts of the `m` lines, the last one first. -/
  microdesc : List Bytes
  hasEd25519Listing : Bool
  ed25519Id : Bytes
deriving DecidableEq

/-- `networkstatus_voter_info_t` of a vote; no legacy key is a digest of zeros. -/
structure VoteSource where
  nickname : Bytes
  identityDigest : Bytes
  legacyIdDigest : Bytes
  address : Bytes
  ipv4Addr : ℕ
  ipv4Dirport : ℕ
  ipv4Orport : ℕ
  contact : Option Bytes
  voteDigest : Bytes
deriving DecidableEq

/-- `networkstatus_type_t` -/
inductive NetworkStatusType where
  | vote | consensus | opinion
deriving DecidableEq, Repr

/-- `networkstatus_t` of a vote. -/
structure VoteStatus where
  type : NetworkStatusType
  supportedMethods : Option (List Bytes)
  protocolSets : ProtocolSet → Option Bytes
  validAfter : ℤ
  freshUntil : ℤ
  validUntil : ℤ
  voteSeconds : ℤ
  distSeconds : ℤ
  clientVersions : Option Bytes
  serverVersions : Option Bytes
  packageLines : List Bytes
  knownFlags : List Bytes
  netParams : Option (List Bytes)
  voters : List VoteSource
  /-- `sr_info.participate` -/
  participate : Bool
  previousSrv : Option SrSrv
  currentSrv : Option SrSrv
  hasMeasuredBws : Bool
  routerstatusList : List VoteRouterStatus

/-! ## Numbers and digests -/

/-- `UINT32_MAX` -/
def uint32Max : ℕ := 4294967295

/-- `digest_from_base64` and `digest256_from_base64` -/
def digestFromBase64 (len : ℕ) (d64 : Bytes) : Option Bytes :=
  (base64Decode d64).filter fun digest => digest.length = len

/-- `is_legal_nickname` -/
def isLegalNickname (s : Bytes) : Bool := s ≠ [] && s.length ≤ 19 && s.all isAlnum

/-- `strchr(s, '=') + 1`, of a text with that character. -/
def afterEquals (s : Bytes) : Bytes := (s.dropWhile fun b => b ≠ byte '=').tail

/-- `smartlist_string_pos` -/
def smartlistStringPos (sl : List Bytes) (s : Bytes) : Option ℕ := sl.findIdx? (· = s)

/-! ## A router entry -/

/-- What the parser uses of the C library and of `address.c`: `parse_iso_time`, `tor_inet_aton`,
and `tor_addr_parse_mask_ports` where it finds one IPv6 address with one port. -/
structure VoteLib where
  parseIsoTime : Bytes → Option ℤ
  inetAton : Bytes → Option ℕ
  ipv6Orport : Bytes → Option (Bytes × ℕ)

/-- What the `w` line says. -/
structure Weights where
  bandwidthKb : Option ℕ := none
  measuredBwKb : Option ℕ := none
  guardfractionPercentage : Option ℕ := none

/-- One argument of the `w` line. -/
def readWeight (w : Weights) (arg : Bytes) : Option Weights :=
  if (cstring "Bandwidth=").isPrefixOf arg then
    (torParseUlong 0 uint32Max (afterEquals arg)).map fun bw => { w with bandwidthKb := some bw }
  else if (cstring "Measured=").isPrefixOf arg then
    (torParseUlong 0 uint32Max (afterEquals arg)).map fun bw => { w with measuredBwKb := some bw }
  else if (cstring "GuardFraction=").isPrefixOf arg then
    (torParseUlong 0 100 (afterEquals arg)).map fun percentage =>
      { w with guardfractionPercentage := some percentage }
  else some w

/-- One argument of the `s` line. -/
def readFlag (knownFlags : List Bytes) (flags : ℕ) (arg : Bytes) : Option ℕ :=
  (smartlistStringPos knownFlags arg).map fun p => flags ||| 1 <<< p

/-- An `id` line; the key of an earlier one stays if there is none here. -/
def readId (ed : Bool × Bytes) (tok : DirectoryToken) : Option (Bool × Bytes) :=
  match tok.args with
  | kind :: key :: _ =>
    if kind ≠ cstring "ed25519" then some ed
    else if key = cstring "none" then some (true, ed.2)
    else (digestFromBase64 32 key).map fun id => (true, id)
  | _ => none

/-- The first argument of the token of a kind. -/
def argOf (tokens : List DirectoryToken) (keyword : DirectoryKeyword) : Option Bytes :=
  (findOptByKeyword tokens keyword).bind fun tok => tok.args.head?

/-- The `p` line. -/
def exitsummaryOk (summary : Bytes) : Bool :=
  (cstring "accept ").isPrefixOf summary || (cstring "reject ").isPrefixOf summary

/-- `routerstatus_parse_entry_from_string` for an entry of a vote, from its tokens on. -/
def parseRouterstatus (L : VoteLib) (knownFlags : List Bytes) (tokens : List DirectoryToken) :
    Option VoteRouterStatus := do
  let tok ← findOptByKeyword tokens kR
  let [nickname, identity64, digest64, day, time, address, orport, dirport] := tok.args.take 8
    | none
  guard (isLegalNickname nickname)
  let identityDigest ← digestFromBase64 20 identity64
  let descriptorDigest ← digestFromBase64 20 digest64
  let timebuf := day ++ cstring " " ++ time
  guard (timebuf.length ≤ 19)
  let publishedOn ← L.parseIsoTime timebuf
  let ipv4Addr ← L.inetAton address
  let flags ← ((findOptByKeyword tokens kS).map (·.args)).getD [] |>.foldlM (readFlag knownFlags) 0
  let protocols := argOf tokens .proto
  guard ((protocols.all fun s => !protoverListIsInvalid s) = true)
  let weights ← ((findOptByKeyword tokens kW).map (·.args)).getD [] |>.foldlM readWeight {}
  let exitsummary := argOf tokens kP
  guard (exitsummary.all exitsummaryOk = true)
  let ed ← (findAllByKeyword tokens kId).foldlM readId (false, List.replicate 32 0)
  some {
    nickname := nickname
    identityDigest := identityDigest
    descriptorDigest := descriptorDigest
    publishedOn := publishedOn
    ipv4Addr := ipv4Addr
    ipv4Orport := ((torParseLong 0 65535 orport).getD 0).toNat
    ipv4Dirport := ((torParseLong 0 65535 dirport).getD 0).toNat
    ipv6 := (findAllByKeyword tokens kA).findSome? fun t => t.args.head?.bind L.ipv6Orport
    flags := flags
    version := argOf tokens kV
    protocols := protocols
    bandwidthKb := weights.bandwidthKb
    measuredBwKb := weights.measuredBwKb
    guardfractionPercentage := weights.guardfractionPercentage
    exitsummary := exitsummary
    microdesc := ((findAllByKeyword tokens kM).filterMap fun t => t.args.head?).reverse
    hasEd25519Listing := ed.1
    ed25519Id := ed.2 }

/-! ## The header -/

/-- `MIN_VOTE_INTERVAL`, and `MIN_VOTE_INTERVAL_TESTING` in a test network -/
def minVoteInterval (testing : Bool) : ℤ := if testing then 10 else 300

/-- `MIN_VOTE_SECONDS` -/
def minVoteSeconds : ℤ := 2

/-- `MIN_DIST_SECONDS` -/
def minDistSeconds : ℤ := 2

/-- `INT32_MIN` -/
def int32Min : ℤ := -2147483648

/-- `INT32_MAX` -/
def int32Max : ℤ := 2147483647

/-- What the vote says about the schedule. -/
structure VoteTimes where
  validAfter : ℤ
  freshUntil : ℤ
  validUntil : ℤ
  voteSeconds : ℤ
  distSeconds : ℤ

/-- The times, with what is checked of them: the vote is fresh for an interval, and valid for
two of them. -/
def readTimes (L : VoteLib) (testing : Bool) (tokens : List DirectoryToken) :
    Option VoteTimes := do
  let validAfter ← timeOf L.parseIsoTime tokens kValidAfter
  let freshUntil ← timeOf L.parseIsoTime tokens kFreshUntil
  let validUntil ← timeOf L.parseIsoTime tokens kValidUntil
  let tok ← findOptByKeyword tokens kVotingDelay
  let voteSeconds ← tok.args[0]?.bind (torParseLong 0 intMaxZ)
  let distSeconds ← tok.args[1]?.bind (torParseLong 0 intMaxZ)
  guard (validAfter + minVoteInterval testing ≤ freshUntil)
  guard (validAfter + minVoteInterval testing * 2 ≤ validUntil)
  guard (minVoteSeconds ≤ voteSeconds)
  guard (minDistSeconds ≤ distSeconds)
  some ⟨validAfter, freshUntil, validUntil, voteSeconds, distSeconds⟩

/-- The keyword of a parameter. -/
def paramKeyword (param : Bytes) : Bytes := param.takeWhile fun b => b ≠ byte '='

/-- The value of a parameter. -/
def paramValue (param : Bytes) : Option ℤ := torParseLong int32Min int32Max (afterEquals param)

/-- A parameter is a keyword, `=` and a number of 32 bits. -/
def paramOk (param : Bytes) : Bool := byte '=' ∈ param && (paramValue param).isSome

/-- What is checked of neighbours on the `params` line. -/
def paramsInOrder (args : List Bytes) : Bool :=
  (args.zip args.tail).all fun p =>
    strcmp p.1 p.2 < 0 && paramKeyword p.1 ≠ paramKeyword p.2

/-- The `params` line. -/
def readParams (tokens : List DirectoryToken) : Option (Option (List Bytes)) :=
  optionalItem tokens kParams fun tok =>
    if tok.args.all paramOk && paramsInOrder tok.args then some tok.args else none

/-- `MAX_KNOWN_FLAGS_IN_VOTE` -/
def maxKnownFlagsInVote : ℕ := 64

/-- The `known-flags` line. -/
def readKnownFlags (tokens : List DirectoryToken) : Option (List Bytes) := do
  let tok ← findOptByKeyword tokens kKnownFlags
  guard ((tok.args.zip tok.args.tail).all fun p => strcmp p.1 p.2 < 0)
  guard (tok.args.length ≤ maxKnownFlagsInVote)
  some tok.args

/-- `sr_parse_srv` -/
def srParseSrv (args : List Bytes) : Option SrSrv := do
  let numReveals ← args[0]?.bind (torParseUlong 0 18446744073709551615)
  let value ← args[1]?
  guard (value.length = 44)
  let value ← digestFromBase64 32 (value.take 43)
  some ⟨numReveals, value⟩

/-- `extract_one_srv`; a value that does not parse is left out. -/
def extractOneSrv (tokens : List DirectoryToken) (srvType : DirectoryKeyword) : Option SrSrv :=
  (findOptByKeyword tokens srvType).bind fun tok => srParseSrv tok.args

/-- What a vote was parsed with, beyond the tokens of its header and of its entries. -/
structure VoteDocument where
  tokens : List DirectoryToken
  /-- `ns->cert->cache_info.identity_digest`, if the certificate parses -/
  certIdentity : Option Bytes
  /-- `authority_cert_is_denylisted` -/
  certDenylisted : Bool
  /-- `ns_digests.d[DIGEST_SHA1]` -/
  sha1 : Bytes
  entries : List (List DirectoryToken)
  /-- The footer is well formed and has one signature, which is the certificate's. -/
  footerOk : Bool

/-- The state of the loop over `dir-source` and `contact`. -/
structure VoterScan where
  voters : List VoteSource := []
  voter : Option VoteSource := none

/-- A `dir-source` line. -/
def readDirSource (L : VoteLib) (certIdentity sha1 : Bytes) (denylisted : Bool)
    (tok : DirectoryToken) : Option VoteSource := do
  let [nickname, identity, address, ip, dirport, orport] := tok.args.take 6 | none
  let identityDigest ← decodeDigest 20 identity
  guard (certIdentity = identityDigest)
  guard (denylisted = false)
  let ipv4Addr ← L.inetAton ip
  let dirport ← torParseLong 0 65535 dirport
  let orport ← torParseLong 0 65535 orport
  some {
    nickname := nickname
    identityDigest := identityDigest
    legacyIdDigest := List.replicate 20 0
    address := address
    ipv4Addr := ipv4Addr
    ipv4Dirport := dirport.toNat
    ipv4Orport := orport.toNat
    contact := none
    voteDigest := sha1 }

/-- One token of the loop over `dir-source` and `contact`. -/
def readVoter (L : VoteLib) (certIdentity sha1 : Bytes) (denylisted : Bool) (scan : VoterScan)
    (tok : DirectoryToken) : Option VoterScan :=
  if tok.tp = kDirSource then
    (readDirSource L certIdentity sha1 denylisted tok).map fun voter =>
      ⟨scan.voters ++ scan.voter.toList, some voter⟩
  else if tok.tp = .contact then
    match scan.voter with
    | none => none
    | some voter =>
      if voter.contact.isSome then none
      else some { scan with voter := some { voter with contact := tok.args.head? } }
  else some scan

/-- The digest of the legacy key; what was decoded of a text that is no digest stays. -/
def legacyIdDigest (arg : Bytes) : Bytes :=
  if arg.length = 40 then
    base16Written arg ++ List.replicate (20 - (base16Written arg).length) 0
  else List.replicate 20 0

/-- The voters, of whom a vote has one. -/
def readVoters (L : VoteLib) (doc : VoteDocument) : Option (List VoteSource) := do
  let certIdentity ← doc.certIdentity
  let scan ← doc.tokens.foldlM (readVoter L certIdentity doc.sha1 doc.certDenylisted) {}
  let [voter] := scan.voters ++ scan.voter.toList | none
  match argOf doc.tokens kLegacyDirKey with
  | none => some [voter]
  | some arg => some [{ voter with legacyIdDigest := legacyIdDigest arg }]

/-- The entries are in the order of their identities, and no two have the same Ed25519 key. -/
def entriesOk (entries : List VoteRouterStatus) : Bool :=
  ((entries.zip entries.tail).all fun p => strcmp p.1.identityDigest p.2.identityDigest < 0)
    && decide ((entries.filter fun vrs =>
      vrs.hasEd25519Listing && !memIsZero vrs.ed25519Id).map (·.ed25519Id)).Nodup

/-- `networkstatus_parse_vote_from_string(…, NS_TYPE_VOTE)`, from the tokens on. -/
def parseVote (L : VoteLib) (testing : Bool) (doc : VoteDocument) : Option VoteStatus := do
  let version ← findOptByKeyword doc.tokens kNetworkStatusVersion
  guard (version.args[1]?.all (· = cstring "ns") = true)
  guard (argOf doc.tokens kVoteStatus = some (cstring "vote"))
  let _published ← timeOf L.parseIsoTime doc.tokens .published
  let protocolSets : ProtocolSet → Option Bytes := fun set => argOf doc.tokens set.keyword
  guard ([ProtocolSet.recommendedClient, .recommendedRelay, .requiredClient, .requiredRelay].all
    fun set => (protocolSets set).all fun s => !protoverListIsInvalid s)
  let times ← readTimes L testing doc.tokens
  let knownFlags ← readKnownFlags doc.tokens
  let netParams ← readParams doc.tokens
  let voters ← readVoters L doc
  let routerstatusList ← doc.entries.mapM (parseRouterstatus L knownFlags)
  guard (entriesOk routerstatusList)
  guard doc.footerOk
  some {
    type := .vote
    supportedMethods := some (((findOptByKeyword doc.tokens kConsensusMethods).map (·.args)).getD
      [cstring "1"])
    protocolSets := protocolSets
    validAfter := times.validAfter
    freshUntil := times.freshUntil
    validUntil := times.validUntil
    voteSeconds := times.voteSeconds
    distSeconds := times.distSeconds
    clientVersions := argOf doc.tokens kClientVersions
    serverVersions := argOf doc.tokens kServerVersions
    packageLines := (findAllByKeyword doc.tokens kPackage).filterMap fun t => t.args.head?
    knownFlags := knownFlags
    netParams := netParams
    voters := voters
    participate := (findOptByKeyword doc.tokens kSrFlag).isSome
    previousSrv := extractOneSrv doc.tokens kPreviousSrv
    currentSrv := extractOneSrv doc.tokens kCurrentSrv
    hasMeasuredBws := routerstatusList.any fun vrs => vrs.measuredBwKb.isSome
    routerstatusList := routerstatusList }

/-! ## What is known of an accepted vote -/

/-- The parser accepts the vote. -/
def VoteStatus.Accepted (v : VoteStatus) : Prop := ∃ L testing doc, parseVote L testing doc = some v

theorem readParams_eq_some {tokens : List DirectoryToken} {args : List Bytes}
    (h : readParams tokens = some (some args)) :
    (∀ p ∈ args, paramOk p = true) ∧ paramsInOrder args = true := by
  unfold readParams optionalItem at h
  split at h
  · cases h
  · simp only [Option.map_eq_some_iff, Option.some.injEq, exists_eq_right] at h
    split_ifs at h with hok
    obtain rfl := Option.some.inj h
    rw [Bool.and_eq_true, List.all_eq_true] at hok
    exact hok

/-- Its parameters have been checked. -/
theorem VoteStatus.Accepted.params {v : VoteStatus} (h : v.Accepted) {args : List Bytes}
    (hargs : v.netParams = some args) :
    (∀ p ∈ args, paramOk p = true) ∧ paramsInOrder args = true := by
  obtain ⟨L, testing, doc, hv⟩ := h
  simp only [parseVote, Option.bind_eq_bind, Option.bind_eq_some_iff, Option.some.injEq] at hv
  obtain ⟨_, -, _, -, _, -, _, -, _, -, _, -, _, -, params, hparams, _, -, _, -, _, -, _, -, rfl⟩ := hv
  obtain rfl : params = some args := hargs
  exact readParams_eq_some hparams

/-- It has a list of methods. -/
theorem VoteStatus.Accepted.methods {v : VoteStatus} (h : v.Accepted) :
    ∃ l, v.supportedMethods = some l := by
  obtain ⟨L, testing, doc, hv⟩ := h
  simp only [parseVote, Option.bind_eq_bind, Option.bind_eq_some_iff, Option.some.injEq] at hv
  obtain ⟨_, -, _, -, _, -, _, -, _, -, _, -, _, -, _, -, _, -, _, -, _, -, _, -, rfl⟩ := hv
  exact ⟨_, rfl⟩

/-! ## Votes with any methods and parameters -/

/-- The times of a vote at the beginning of a day, and no address. -/
def plainLib : VoteLib where
  parseIsoTime s :=
    if s = cstring "2026-01-01 00:00:00" then some 1767225600
    else if s = cstring "2026-01-01 01:00:00" then some 1767229200
    else if s = cstring "2026-01-01 03:00:00" then some 1767236400
    else none
  inetAton s := if s = cstring "127.0.0.1" then some 2130706433 else none
  ipv6Orport _ := none

/-- A vote with these methods and parameters and without entries. -/
def plainVote (methods params : List Bytes) : VoteDocument where
  tokens := [
    ⟨kNetworkStatusVersion, [cstring "3"], none⟩,
    ⟨kVoteStatus, [cstring "vote"], none⟩,
    ⟨kConsensusMethods, methods, none⟩,
    ⟨.published, [cstring "2026-01-01 00:00:00"], none⟩,
    ⟨kValidAfter, [cstring "2026-01-01 00:00:00"], none⟩,
    ⟨kFreshUntil, [cstring "2026-01-01 01:00:00"], none⟩,
    ⟨kValidUntil, [cstring "2026-01-01 03:00:00"], none⟩,
    ⟨kVotingDelay, [cstring "300", cstring "300"], none⟩,
    ⟨kKnownFlags, [], none⟩,
    ⟨kParams, params, none⟩,
    ⟨kDirSource, [cstring "auth", List.replicate 40 48, cstring "auth.example",
      cstring "127.0.0.1", cstring "80", cstring "443"], none⟩]
  certIdentity := some (List.replicate 20 0)
  certDenylisted := false
  sha1 := List.replicate 20 0
  entries := []
  footerOk := true

/-- Every list of methods and every good list of parameters can stand in a vote. -/
theorem exists_accepted (methods : List Bytes) {params : List Bytes}
    (hok : ∀ p ∈ params, paramOk p = true) (horder : paramsInOrder params = true) :
    ∃ v : VoteStatus, v.Accepted ∧ v.supportedMethods = some methods
      ∧ v.netParams = some params := by
  have hparams : readParams (plainVote methods params).tokens = some (some params) := by
    unfold readParams optionalItem
    have hfind : findOptByKeyword (plainVote methods params).tokens kParams
        = some ⟨kParams, params, none⟩ := rfl
    rw [hfind]
    dsimp only
    rw [if_pos (by rw [Bool.and_eq_true, List.all_eq_true]; exact ⟨hok, horder⟩)]
    rfl
  have hvoters : ∃ voters, readVoters plainLib (plainVote methods params) = some voters :=
    ⟨_, rfl⟩
  have htimes : ∃ times, readTimes plainLib false (plainVote methods params).tokens = some times :=
    ⟨_, rfl⟩
  obtain ⟨voters, hvoters⟩ := hvoters
  obtain ⟨times, htimes⟩ := htimes
  have hvote : ∃ v, parseVote plainLib false (plainVote methods params) = some v
      ∧ v.supportedMethods = some methods ∧ v.netParams = some params := by
    unfold parseVote
    rw [htimes, hvoters, hparams]
    exact ⟨_, rfl, rfl, rfl⟩
  obtain ⟨v, hv, hfields⟩ := hvote
  exact ⟨v, ⟨plainLib, false, _, hv⟩, hfields⟩

end Dittor.Tor

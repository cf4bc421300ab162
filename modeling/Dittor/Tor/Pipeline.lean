import Dittor.Tor.RouterEntry
import Dittor.Tor.Rejection

/-!
# From the exported proof to the registry (`Main.java`, `router.c`, `routerparse.c`)

The way of a proof through both programs: `Main` writes it to a file as one line,
the relay's `router_dump_router_to_string` reads the line with `fgets` and puts it
into the descriptor it signs, which it then has parsed by its own parser and
returns only if that accepts it; the authority tokenizes the descriptor
and prints the arguments into the `VALIDATE` line, and the bridge splits that line
at its bars. Blanks delimit the fields in the file and in the descriptor, bars in
the request; a field with neither goes through unchanged (`proof_survives_pipeline`).

In the other direction, whatever a descriptor holds: a token of the tokenizer has
arguments without whitespace (`proofToken_facts`), and a request that the bridge
calls valid registers the descriptor's own identity and family
(`no_field_injection`).
-/

namespace Dittor.Tor

open Dittor.Lib Dittor.Crypto Dittor.Dkg Dittor.Registration

/-! ## The exported proof -/

/-- The seven texts of a proof, in their order. -/
structure ProofFields where
  pkJSON : Text
  nymJSON : Text
  zkpJSON : Text
  g1xJSON : Text
  credentialJSON : Text
  dleqChallengeJSON : Text
  dleqResponseJSON : Text

def ProofFields.toList (f : ProofFields) : List Text :=
  [f.pkJSON, f.nymJSON, f.zkpJSON, f.g1xJSON, f.credentialJSON, f.dleqChallengeJSON,
    f.dleqResponseJSON]

/-- `buildDittorProofLine` -/
def buildDittorProofLine (context : Text) (f : ProofFields) : Text :=
  [' '].intercalate ("dittor-proof".toList :: context :: f.toList)

/-! ## The injection -/

/-- `sizeof(proof_buf)` -/
def proofBufSize : ℕ := 16384

/-- `fgets`: up to the newline, and at most `size - 1` bytes; `none` at the end of the file. -/
def fgets (size : ℕ) (file : Bytes) : Option Bytes :=
  if file = [] then none else some ((lineOf file ++ (afterLine file).take 1).take (size - 1))

/-- What is appended to the chunks for the file; `none` when `fopen` fails. -/
def injectProof (file : Option Bytes) : Bytes :=
  match file.bind (fgets proofBufSize) with
  | none => []
  | some read =>
    -- as a C string, it ends before the first NUL
    let proofBuf := read.takeWhile fun b => b ≠ 0
    if 0 < proofBuf.length ∧ proofBuf.getLast? ≠ some (byte '\n') then
      proofBuf ++ (cstring "\n").take (proofBufSize - proofBuf.length - 1)
    else proofBuf

/-- The signatures of a relay over the text in front of them, in base64. -/
structure Signer where
  /-- `emit_ed_sigs` -/
  emitEdSigs : Bool
  /-- Whether `ed25519_sign` or `router_get_dirobj_signature` fails behind a text. -/
  fails : Bytes → Bool
  ed25519 : Bytes → Bytes
  rsa : Bytes → Bytes
  ed25519_base64 : ∀ body, ed25519 body ≠ [] ∧ ∀ b ∈ ed25519 body, isBase64 b = true
  /-- `ED25519_SIG_BASE64_LEN` -/
  ed25519_length : ∀ body, (ed25519 body).length ≤ 86
  /-- `BASE64_ENCODE_MULTILINE` of a signature -/
  rsa_base64 : ∀ body, ∀ b ∈ rsa body, isBase64 b = true ∨ b = byte '=' ∨ b = byte '\n'
  rsa_length : ∀ body, (rsa body).length ≤ maxLineLength
  rsa_decodes : ∀ body, (base64Decode (rsa body)).isSome

/-- `router_get_dirobj_signature` -/
def Signer.dirobjSignature (K : Signer) (body : Bytes) : Bytes :=
  cstring "-----BEGIN SIGNATURE-----\n" ++ K.rsa body ++ cstring "-----END SIGNATURE-----\n"

/-- The line `router-sig-ed25519` behind a text. -/
def Signer.edLine (K : Signer) (body : Bytes) : Bytes :=
  if K.emitEdSigs then
    cstring "router-sig-ed25519 " ++ K.ed25519 (body ++ cstring "router-sig-ed25519 ") ++ cstring "\n"
  else []

/-- The item `router-signature` behind a text, and the last newline. -/
def Signer.rsaItem (K : Signer) (body : Bytes) : Bytes :=
  cstring "router-signature\n" ++ K.dirobjSignature (body ++ cstring "router-signature\n")
    ++ cstring "\n"

/-- What follows the injected line. -/
def Signer.signatures (K : Signer) (body : Bytes) : Bytes :=
  K.edLine body ++ K.rsaItem (body ++ K.edLine body)

section Dump

variable {p : ℕ} {G1 G2 GT : Type} [CommGroup G1] [CommGroup G2] [CommGroup GT] [DecidableEq GT]

/-- `dittorProxy` on the relay's own machine, where the bridge runs or does not. -/
def loopbackProxy (R : Restorer p G1 G2 GT) (S : CryptimeleonSetup p G1 G2 GT) (bridge : Bool)
    (da : DA G2) (message : Bytes) : DA G2 × Option Text :=
  if bridge then dittorProxy R S da message else (da, none)

/-- `router_dump_router_to_string` from the injection on: `chunks` is what it has collected
before. What it has signed goes through the parser once, which asks the backend of the relay's
own machine; where the parser returns no router, nothing is returned here either. -/
def routerDumpRouterToString {Policy : Type} (L : RouterLib Policy) (D : KeyDecoder)
    (C : SignatureChecks) (R : Restorer p G1 G2 GT) (S : CryptimeleonSetup p G1 G2 GT)
    (bridge : Bool) (K : Signer) (da : DA G2) (chunks : Bytes) (file : Option Bytes) :
    DA G2 × Option Bytes :=
  let body := chunks ++ injectProof file
  if K.fails body then (da, none)
  else
    let output := body ++ K.signatures body
    let entry := routerParseEntryFromString L D C {}
      (fun request => (loopbackProxy R S bridge da request).2) output
    (entry.request.elim da fun request => (loopbackProxy R S bridge da request).1,
      if entry.router.isSome then some output else none)

/-- A text that is returned has been accepted by the relay's own parser. -/
theorem routerDump_returned {Policy : Type} {L : RouterLib Policy} {D : KeyDecoder}
    {C : SignatureChecks} {R : Restorer p G1 G2 GT} {S : CryptimeleonSetup p G1 G2 GT}
    {bridge : Bool} {K : Signer} {da da' : DA G2} {chunks text : Bytes} {file : Option Bytes}
    (h : routerDumpRouterToString L D C R S bridge K da chunks file = (da', some text)) :
    (routerParseEntryFromString L D C {}
        (fun message => (loopbackProxy R S bridge da message).2) text).router.isSome = true
      ∧ text = chunks ++ injectProof file ++ K.signatures (chunks ++ injectProof file) := by
  unfold routerDumpRouterToString at h
  dsimp only at h
  split at h
  next => cases (Prod.mk.inj h).2
  next =>
    have hout := (Prod.mk.inj h).2
    split at hout
    next hrouter =>
      obtain rfl := Option.some.inj hout
      exact ⟨hrouter, rfl⟩
    next => cases hout

end Dump

/-! ## The tokens of a proof -/

section Tokens

variable {D : KeyDecoder} {bytes : Bytes} {toks : List DirectoryToken} {tok : DirectoryToken}

theorem skipOpt_suffix (line : Bytes) : skipOpt line <:+ line := by
  unfold skipOpt
  split
  · exact (List.dropWhile_suffix _).trans (List.dropWhile_suffix _)
  · exact List.suffix_refl _

/-- A `dittor-proof` token has its arguments from the rest of one line. -/
theorem proofToken_line (h : tokenizeLoop D routerdescTokenTable bytes = .ok toks)
    (hmem : tok ∈ toks) (htp : tok.tp = .optDittorProof) :
    ∃ rest : Bytes, (∀ b ∈ rest, b ∈ bytes ∧ b ≠ byte '\n') ∧ rest.length ≤ maxLineLength
      ∧ getTokenArguments rest = some tok.args ∧ 8 ≤ tok.args.length := by
  have hrules : ∀ r ∈ routerdescTokenTable, r.v = .optDittorProof →
      r.concatArgs = false ∧ r.minArgs = 8 := by decide
  obtain ⟨s, r, hsuf, hnext⟩ := mem_tokenizeLoop h hmem
  obtain ⟨hlen, -, item, kwd, os, object, hline, -, hcheck⟩ := getNextToken_iff.mp hnext
  obtain rfl := tokenCheckObject_ok hcheck
  have hitem : item.tp = .optDittorProof := htp
  unfold lineToken at hline
  split at hline
  next rule hfind =>
    obtain ⟨item', hrule, heq⟩ := except_map_eq_ok.mp hline
    obtain ⟨rfl, -⟩ := Prod.mk.inj heq
    -- the rule of the keyword does not join the arguments, so they are cut at blanks
    have hin : rule ∈ routerdescTokenTable := List.mem_of_find?_eq_some hfind
    obtain ⟨args, hargs, hcount, -, rfl⟩ := ruleToken_iff.mp hrule
    obtain ⟨hconcat, hmin⟩ := hrules rule hin hitem
    rw [ruleArguments_iff hconcat] at hargs
    have hrest : eatBlanks (afterWord (skipOpt (lineOf (eatWhitespace false s))))
        <:+ lineOf (eatWhitespace false s) :=
      (List.dropWhile_suffix _).trans ((List.dropWhile_suffix _).trans (skipOpt_suffix _))
    refine ⟨_, fun b hb => ?_, le_trans hrest.length_le hlen, hargs, hmin ▸ hcount⟩
    have hb' := hrest.mem hb
    constructor
    · exact hsuf.mem ((eatWhitespace_suffix false s).mem ((List.takeWhile_prefix _).mem hb'))
    · simpa using List.mem_takeWhile_imp hb'
  next =>
    obtain ⟨rfl, -⟩ := Prod.mk.inj (Except.ok.inj hline)
    -- a keyword outside the table never gives this kind
    unfold unknownToken at hitem
    dsimp only at hitem
    split at hitem
    next => cases hitem
    next => cases hitem

/-- **Every token of the tokenizer** has eight arguments or more, without whitespace. -/
theorem proofToken_facts (h : tokenizeLoop D routerdescTokenTable bytes = .ok toks)
    (hmem : tok ∈ toks) (htp : tok.tp = .optDittorProof) :
    8 ≤ tok.args.length ∧ ∀ a ∈ tok.args, ∀ b ∈ a, isWhitespace b = false := by
  obtain ⟨rest, -, -, hargs, hcount⟩ := proofToken_line h hmem htp
  unfold getTokenArguments at hargs
  split at hargs
  next =>
    rw [← Option.some.inj hargs]
    rw [← Option.some.inj hargs] at hcount
    exact ⟨hcount, tokenArguments_clean rest⟩
  next => cases hargs

end Tokens

/-! ## No field injection -/

section Injection

/-- The uppercase hexadecimal digits of a byte string. -/
def upperHex (bytes : Bytes) : Text :=
  (bytes.flatMap fun b => [Nat.digitChar (b.toNat / 16), Nat.digitChar (b.toNat % 16)]).map
    Char.toUpper

theorem decode_base16Encode (src : Bytes) : decodeUtf8 (base16Encode src) = upperHex src := by
  have hdigit : ∀ n < 16, Char.ofNat (base16Digit n).toNat = (Nat.digitChar n).toUpper := by decide
  rw [decode_graphic fun b hb => (mem_base16Encode hb).1]
  unfold base16Encode upperHex
  rw [List.map_flatMap, List.map_flatMap]
  congr 1
  funext b
  have hb : b.toNat < 256 := b.toNat_lt
  simp only [List.map_cons, List.map_nil, hdigit (b.toNat / 16) (by omega),
    hdigit (b.toNat % 16) (by omega)]

variable {p : ℕ} {G1 G2 GT : Type}

/-- The context and the proof of a registration are those in the arguments, up to the
characters that are trimmed. -/
structure FromArguments (R : Restorer p G1 G2 GT) (args : List Bytes)
    (msg : RegisterRelayMsg p G1 G2 GT) : Prop where
  context : args[0]?.map (fun a => javaTrim (decodeUtf8 a)) = some msg.context
  pk : args[1]?.bind (fun a => R.restoreG2 (sanitizeJsonString (decodeUtf8 a)))
    = some msg.userPublicKeyG2
  nym : args[2]?.bind (fun a => R.restoreGT (sanitizeJsonString (decodeUtf8 a)))
    = some msg.vrfData.nym
  zkp : args[3]?.bind (fun a => R.restoreG1 (sanitizeJsonString (decodeUtf8 a)))
    = some msg.vrfData.zkp
  g1x : args[4]?.bind (fun a => R.restoreG1 (sanitizeJsonString (decodeUtf8 a)))
    = some msg.credentialCommitmentG1
  credential : args[5]?.bind (fun a => R.restoreG1 (sanitizeJsonString (decodeUtf8 a)))
    = some msg.credential
  challenge : args[6]?.bind (fun a => R.restoreZn (sanitizeJsonString (decodeUtf8 a)))
    = some msg.dleqProof.challenge
  response : args[7]?.bind (fun a => R.restoreZn (sanitizeJsonString (decodeUtf8 a)))
    = some msg.dleqProof.response

variable {R : Restorer p G1 G2 GT} {args : List Bytes} {d : Descriptor}
  {msg : RegisterRelayMsg p G1 G2 GT}

theorem ownMessage_facts (hlen : 8 ≤ args.length)
    (hhead : args.head? = some (cstring "TorRelayConsensus2026"))
    (h : ownMessage R args d = some msg) :
    msg.nodeId = upperHex d.identityDigest
      ∧ msg.familyIds = d.familyIds.map (fun f => decodeUtf8 f.text) ∧ FromArguments R args msg := by
  obtain ⟨a0, a1, a2, a3, a4, a5, a6, a7, rest, rfl⟩ := exists_eight hlen
  obtain rfl : a0 = cstring "TorRelayConsensus2026" := Option.some.inj hhead
  have hctx : javaTrim (decodeUtf8 (cstring "TorRelayConsensus2026")) = torContext := by decide
  simp only [ownMessage, List.map_cons, Option.bind_eq_bind, Option.bind_eq_some_iff] at h
  obtain ⟨pk, hpk, nym, hnym, zkp, hzkp, g1x, hg1x, credential, hcredential, challenge, hchallenge,
    response, hresponse, hmsg⟩ := h
  obtain rfl := Option.some.inj hmsg
  exact ⟨decode_base16Encode d.identityDigest, rfl,
    ⟨congrArg some hctx, hpk, hnym, hzkp, hg1x, hcredential, hchallenge, hresponse⟩⟩

variable [CommGroup G1] [CommGroup G2] [CommGroup GT] [DecidableEq GT]

/-- **No field injection.** For every `dittor-proof` token of the tokenizer that the block
accepts, every identity digest and every list of family ids: if the bridge answers `VALID`
to the line that is sent, then what it read and registered are the descriptor's own
identity and family ids, and the arguments of the token. -/
theorem no_field_injection {D : KeyDecoder} {bytes : Bytes} {toks : List DirectoryToken}
    {tok : DirectoryToken} (h : tokenizeLoop D routerdescTokenTable bytes = .ok toks)
    (hmem : tok ∈ toks) (htp : tok.tp = .optDittorProof)
    (hctx : tok.args.head? = some (cstring "TorRelayConsensus2026"))
    (S : CryptimeleonSetup p G1 G2 GT) (da : DA G2) (d : Descriptor)
    (hvalid : (serve R S da (snprintf payloadSize (validationLine tok.args d)) false).2
      = some "VALID".toList) :
    ∃ request msg,
      readLine (snprintf payloadSize (validationLine tok.args d)) false = .line request
        ∧ parseRequest R (javaTrim (request.drop 9)) = some msg ∧ authorizes S da msg = true
        ∧ da.registerNode S msg.context msg.vrfData.nym msg.nodeId msg.familyIds.toFinset
          = ((serve R S da (snprintf payloadSize (validationLine tok.args d)) false).1, true)
        ∧ msg.nodeId = upperHex d.identityDigest
        ∧ msg.familyIds = d.familyIds.map (fun f => decodeUtf8 f.text)
        ∧ FromArguments R tok.args msg := by
  obtain ⟨hlen, hclean⟩ := proofToken_facts h hmem htp
  rcases snprintf_line tok.args d with ⟨hfits, hline⟩ | ⟨-, hline⟩
  · have hread : readLine (snprintf payloadSize (validationLine tok.args d)) false
        = .line ("VALIDATE ".toList ++ payloadText tok.args d) := by
      rw [hline, readLine_complete (lineBody_no_end hclean), decode_lineBody]
    have hserve : serve R S da (snprintf payloadSize (validationLine tok.args d)) false = _ :=
      serve_fits hclean hctx hfits
    rw [hserve] at hvalid ⊢
    -- the line arrived whole and is answered by what `validate` returns
    have htrue : (validate R S da (payloadText tok.args d)).2 = true := by
      cases hv : (validate R S da (payloadText tok.args d)).2 with
      | true => rfl
      | false =>
        rw [hv] at hvalid
        exact absurd (show some "INVALID".toList = some "VALID".toList from hvalid) (by decide)
    obtain ⟨msg, hparse, hauth, hreg⟩ := validate_accepts R S htrue
    refine ⟨_, msg, hread, ?_, hauth, hreg, ownMessage_facts hlen hctx (own_of_parse hlen hctx hparse)⟩
    show parseRequest R (javaTrim (payloadText tok.args d)) = some msg
    rw [javaTrim_payload hctx, hparse]
  · -- a line that was cut off is not answered
    have hread : readLine (snprintf payloadSize (validationLine tok.args d)) false = .timeout := by
      rw [hline]
      exact readLine_incomplete fun b hb => lineBody_no_end hclean b (List.mem_of_mem_take hb)
    unfold serve at hvalid
    rw [hread] at hvalid
    exact absurd hvalid (by simp)

end Injection

/-- The line of a proof in a descriptor. -/
def proofItem : Bytes := [byte ' '].intercalate (cstring "dittor-proof" :: sampleArgs) ++ [byte '\n']

theorem tokenizeLoop_proofItem :
    tokenizeLoop (fun _ => none) routerdescTokenTable proofItem
      = .ok [{ tp := .optDittorProof, args := sampleArgs }] := by
  unfold proofItem sampleArgs
  decide +kernel

theorem proofItem_valid :
    (serve (digitRestorer 5) (productSetup 5 2) ⟨.ofAdd 3, ∅⟩
      (snprintf payloadSize (validationLine sampleArgs (sampleDescriptor 9001).toDescriptor))
        false).2 = some "VALID".toList := by
  decide

/-- The node and the family of that descriptor. -/
theorem no_field_injection_one :
    ∃ (tok : DirectoryToken) (msg : RegisterRelayMsg 5 (Multiplicative (ZMod 5))
        (Multiplicative (ZMod 5)) (Multiplicative (ZMod 5))),
      (tokenizeLoop (fun _ => none) routerdescTokenTable proofItem = .ok [tok]
          ∧ tok.tp = .optDittorProof ∧ tok.args.head? = some (cstring "TorRelayConsensus2026")
          ∧ (serve (digitRestorer 5) (productSetup 5 2) ⟨.ofAdd 3, ∅⟩
              (snprintf payloadSize (validationLine tok.args (sampleDescriptor 9001).toDescriptor))
                false).2 = some "VALID".toList)
        ∧ authorizes (productSetup 5 2) ⟨.ofAdd 3, ∅⟩ msg = true
        ∧ msg.nodeId = upperHex (sampleDescriptor 9001).identityDigest
        ∧ msg.familyIds = ["ed25519:AAAA".toList]
        ∧ FromArguments (digitRestorer 5) tok.args msg := by
  obtain ⟨_, msg, -, -, hauth, -, hnode, hfamily, hargs⟩ :=
    no_field_injection tokenizeLoop_proofItem List.mem_cons_self rfl rfl (productSetup 5 2)
      ⟨.ofAdd 3, ∅⟩ (sampleDescriptor 9001).toDescriptor proofItem_valid
  refine ⟨_, msg, ⟨tokenizeLoop_proofItem, rfl, rfl, proofItem_valid⟩, hauth, hnode, ?_, hargs⟩
  rw [hfamily]
  decide

/-! ## One line of arguments -/

section Line

variable {D : KeyDecoder} {table : List TokenRule} {kw : Bytes} {args : List Bytes}

/-- Arguments as the tokenizer gives them back. -/
def CleanArgs (args : List Bytes) : Prop := ∀ a ∈ args, a ≠ [] ∧ ∀ b ∈ a, isWhitespace b = false

theorem CleanArgs.newline (h : CleanArgs args) : byte '\n' ∉ [byte ' '].intercalate args :=
  fun hmem => (intercalate_clean h _ hmem).2 rfl

/-- The word in front of a blank. -/
theorem word_cut (hkw : ∀ b ∈ kw, isWhitespace b = false) (rest : Bytes) :
    firstWord (kw ++ byte ' ' :: rest) = kw
      ∧ afterWord (kw ++ byte ' ' :: rest) = byte ' ' :: rest := by
  -- the keyword ends at the blank behind it
  have hall : ∀ b ∈ kw, (!isWhitespace b) = true := by simpa using hkw
  unfold firstWord afterWord
  rw [List.takeWhile_append_of_pos hall, List.dropWhile_append_of_pos hall,
    List.takeWhile_cons_of_neg (by decide), List.dropWhile_cons_of_neg (by decide),
    List.append_nil]
  exact ⟨rfl, rfl⟩

/-- A joined line begins with its first byte, which is no whitespace. -/
theorem CleanArgs.head (h : CleanArgs args) (hne : args ≠ []) :
    ∃ b bs, [byte ' '].intercalate args = b :: bs ∧ isWhitespace b = false := by
  obtain ⟨a, as, rfl⟩ := List.exists_cons_of_ne_nil hne
  obtain ⟨hane, hclean⟩ := h a List.mem_cons_self
  obtain ⟨b, bs, rfl⟩ := List.exists_cons_of_ne_nil hane
  refine ⟨b, _, List.intercalate_cons_cons_left, hclean b List.mem_cons_self⟩

theorem eatBlanks_cons {b : UInt8} (hb : isWhitespace b = false) (bs : Bytes) :
    eatBlanks (byte ' ' :: b :: bs) = b :: bs := by
  unfold isWhitespace at hb
  simp only [Bool.or_eq_false_iff, decide_eq_false_iff_not] at hb
  obtain ⟨⟨⟨⟨-, hblank⟩, hcr⟩, -⟩, htab⟩ := hb
  unfold eatBlanks
  rw [List.dropWhile_cons_of_pos (by decide), List.dropWhile_cons_of_neg (by simp [hblank, hcr, htab])]

/-- **A keyword with its arguments**, joined by blanks, is one token. -/
theorem getNextToken_line {r : TokenRule} (hfind : table.find? (fun x => x.t = kw) = some r)
    (hargs : CleanArgs (kw :: args)) (hne : args ≠ []) (hopt : kw ≠ cstring "opt")
    (hconcat : r.concatArgs = false) (hos : r.os = .noObj) (hmin : r.minArgs ≤ args.length)
    (hmax : args.length ≤ r.maxArgs) (hcount : args.length ≤ maxArgs)
    (hlen : ([byte ' '].intercalate (kw :: args)).length ≤ maxLineLength) :
    getNextToken D table ([byte ' '].intercalate (kw :: args) ++ [byte '\n'])
      = .ok ({ tp := r.v, args := args }, []) := by
  have hkw : ∀ b ∈ kw, isWhitespace b = false := (hargs kw List.mem_cons_self).2
  have htail : CleanArgs args := fun a ha => hargs a (List.mem_cons_of_mem kw ha)
  obtain ⟨b, bs, hjoin, hb⟩ := htail.head hne
  -- the line as keyword, blank and arguments
  have hline : [byte ' '].intercalate (kw :: args) = kw ++ byte ' ' :: b :: bs := by
    rw [← hjoin]
    obtain ⟨a, as, rfl⟩ := List.exists_cons_of_ne_nil hne
    rw [List.intercalate_cons_cons, List.append_assoc, List.singleton_append]
  obtain ⟨c, cs, hstart, hc⟩ := hargs.head (by simp)
  have heat : eatWhitespace false ([byte ' '].intercalate (kw :: args) ++ [byte '\n'])
      = [byte ' '].intercalate (kw :: args) ++ [byte '\n'] := by
    rw [hstart, List.cons_append, eatWhitespace_cons hc]
  obtain ⟨hlineOf, hafter⟩ := line_cut hargs.newline []
  obtain ⟨hfirst, hword⟩ := word_cut hkw (b :: bs)
  have hskip : skipOpt ([byte ' '].intercalate (kw :: args))
      = [byte ' '].intercalate (kw :: args) := by
    unfold skipOpt
    rw [hline, hfirst, if_neg hopt]
  -- the arguments are read back as they were joined
  have htoken : ruleToken r ([byte ' '].intercalate (kw :: args))
      = .ok { tp := r.v, args := args } := by
    refine ruleToken_iff.mpr ⟨args, (ruleArguments_iff hconcat).mpr ?_, hmin, hmax, rfl⟩
    unfold getTokenArguments
    rw [hline, hword, eatBlanks_cons hb, ← hjoin, tokenArguments_intercalate htail, if_pos hcount]
  have hitem : lineToken table ([byte ' '].intercalate (kw :: args))
      = .ok ({ tp := r.v, args := args }, r.t, r.os) := by
    unfold lineToken
    rw [show firstWord ([byte ' '].intercalate (kw :: args)) = kw by rw [hline, hfirst], hfind]
    dsimp only
    rw [htoken]
    rfl
  rw [getNextToken_iff, heat, hlineOf, hafter, hskip]
  refine ⟨hlen, by simp, _, _, _, none, hitem, optObject_iff.mpr (.inl ⟨rfl, rfl, rfl⟩), ?_⟩
  rw [hos]
  rfl

end Line

/-! ## The signatures -/

section Signatures

variable (D : KeyDecoder) (K : Signer) (body : Bytes)

theorem beginsObject_of_head {b : UInt8} (hb : b ≠ byte '-') (bs : Bytes) :
    beginsObject (b :: bs) = false := by
  have hpre : (cstring "-----BEGIN ").isPrefixOf (b :: bs) = false := by
    rw [show cstring "-----BEGIN " = byte '-' :: cstring "----BEGIN " by decide,
      List.isPrefixOf_cons_cons, beq_eq_false_iff_ne.mpr hb.symm, Bool.false_and]
  unfold beginsObject
  rw [hpre, Bool.and_false]

/-- Complete lines in front of an item that begins with a letter of its keyword. -/
theorem tokenizeLoop_append_item {D : KeyDecoder} {table : List TokenRule} {s rest : Bytes}
    {toks more : List DirectoryToken} {b : UInt8} (hs : EndsLine s)
    (h : tokenizeLoop D table s = .ok toks) (hmore : tokenizeLoop D table rest = .ok more)
    (hhead : ∃ bs, rest = b :: bs) (hb : isWhitespace b = false) (hdash : b ≠ byte '-') :
    tokenizeLoop D table (s ++ rest) = .ok (toks ++ more) := by
  obtain ⟨bs, rfl⟩ := hhead
  exact tokenizeLoop_append (eatWhitespace_cons hb bs) (beginsObject_of_head hdash bs) hs h hmore

/-- Text without the first byte of the needle is skipped. -/
theorem memstr_skip {n : UInt8} {ns text next : Bytes} (htext : ∀ b ∈ text, b ≠ n)
    (hnext : n :: ns <+: next) : memstr (n :: ns) (text ++ next) = some (text, next) := by
  induction text with
  | nil =>
    obtain ⟨post, rfl⟩ := hnext
    have hpre : (n :: ns).isPrefixOf (n :: (ns ++ post)) = true :=
      List.isPrefixOf_iff_prefix.mpr (List.prefix_append (n :: ns) post)
    rw [List.nil_append, List.cons_append, memstr, if_pos hpre]
  | cons b bs ih =>
    have hb : b ≠ n := htext b List.mem_cons_self
    have hpre : (n :: ns).isPrefixOf (b :: (bs ++ next)) = false := by
      rw [List.isPrefixOf_cons_cons, beq_eq_false_iff_ne.mpr hb.symm, Bool.false_and]
    rw [List.cons_append, memstr, if_neg (by rw [hpre]; decide),
      ih fun c hc => htext c (List.mem_cons_of_mem b hc)]
    rfl

/-- The bytes where a word ends. -/
theorem whitespace_cases {b : UInt8} (h : isWhitespace b = true) :
    b = 0 ∨ b = byte '#' ∨ b = byte ' ' ∨ b = byte '\r' ∨ b = byte '\n' ∨ b = byte '\t' := by
  simpa [isWhitespace, or_assoc] using h

theorem base64_not_whitespace {b : UInt8} (h : isBase64 b = true) : isWhitespace b = false := by
  refine Bool.eq_false_iff.mpr fun hws => ?_
  rcases whitespace_cases hws with rfl | rfl | rfl | rfl | rfl | rfl <;> exact absurd h (by decide)

/-- The line `router-sig-ed25519` is one token. -/
theorem getNextToken_edLine (hemit : K.emitEdSigs = true) :
    ∃ tok, getNextToken D routerdescTokenTable (K.edLine body) = .ok (tok, [])
      ∧ tok.tp = .routerSigEd25519 := by
  let sig := K.ed25519 (body ++ cstring "router-sig-ed25519 ")
  have hsig := K.ed25519_base64 (body ++ cstring "router-sig-ed25519 ")
  have hlit : cstring "router-sig-ed25519 " = cstring "router-sig-ed25519" ++ [byte ' '] := by decide
  have hline : K.edLine body
      = [byte ' '].intercalate [cstring "router-sig-ed25519", sig] ++ [byte '\n'] := by
    unfold Signer.edLine
    rw [if_pos hemit, List.intercalate_cons_cons, List.intercalate_singleton, hlit]
    rfl
  have hargs : CleanArgs [cstring "router-sig-ed25519", sig] := by
    have hkw : ∀ b ∈ cstring "router-sig-ed25519", isWhitespace b = false := by
      decide +kernel
    intro a ha
    rcases List.mem_cons.mp ha with rfl | ha
    · exact ⟨by decide, hkw⟩
    · rw [List.mem_singleton.mp ha]
      exact ⟨hsig.1, fun b hb => base64_not_whitespace (hsig.2 b hb)⟩
  have hlen : ([byte ' '].intercalate [cstring "router-sig-ed25519", sig]).length
      ≤ maxLineLength := by
    have hed := K.ed25519_length (body ++ cstring "router-sig-ed25519 ")
    rw [List.intercalate_cons_cons, List.intercalate_singleton, List.length_append,
      List.length_append, show (cstring "router-sig-ed25519").length = 18 by decide]
    unfold maxLineLength
    show 18 + 1 + (K.ed25519 (body ++ cstring "router-sig-ed25519 ")).length ≤ _
    omega
  rw [hline]
  exact ⟨_, getNextToken_line
    (r := TokenRule.t1 "router-sig-ed25519" .routerSigEd25519 (.ge 1) .noObj) (by decide)
    hargs (by simp) (by decide) rfl rfl (le_refl 1) (show 1 ≤ intMax by decide)
    (show 1 ≤ maxArgs by decide) hlen, rfl⟩

/-- The object of a signature, from its begin line to the end of the document, with `tail`
behind its last line. -/
def signatureObject (text tail : Bytes) : Bytes :=
  cstring "-----BEGIN SIGNATURE-----" ++ byte '\n'
    :: (text ++ (cstring "-----END SIGNATURE-----" ++ byte '\n' :: tail))

/-- The item `router-signature`, with `tail` behind it. -/
def Signer.rsaLines (K : Signer) (body tail : Bytes) : Bytes :=
  cstring "router-signature" ++ byte '\n'
    :: signatureObject (K.rsa (body ++ cstring "router-signature\n")) tail

/-- Both signatures, with `tail` behind them: the last newline, or nothing when it is cut off. -/
def Signer.signed (K : Signer) (body tail : Bytes) : Bytes :=
  K.edLine body ++ K.rsaLines (body ++ K.edLine body) tail

/-- What may follow the last line. -/
def IsTail (tail : Bytes) : Prop := tail = [] ∨ tail = [byte '\n']

theorem rsaItem_eq : K.rsaItem body = K.rsaLines body [byte '\n'] := by
  have hkw : cstring "router-signature\n" = cstring "router-signature" ++ [byte '\n'] := by decide
  have hbegin : cstring "-----BEGIN SIGNATURE-----\n"
      = cstring "-----BEGIN SIGNATURE-----" ++ [byte '\n'] := by decide
  have hend : cstring "-----END SIGNATURE-----\n"
      = cstring "-----END SIGNATURE-----" ++ [byte '\n'] := by decide
  have hlast : cstring "\n" = [byte '\n'] := by decide
  unfold Signer.rsaItem Signer.dirobjSignature Signer.rsaLines signatureObject
  generalize K.rsa (body ++ cstring "router-signature\n") = text
  rw [hkw, hbegin, hend, hlast]
  simp only [List.append_assoc, List.cons_append, List.nil_append]

theorem signatures_eq : K.signatures body = K.signed body [byte '\n'] := by
  unfold Signer.signatures Signer.signed
  rw [rsaItem_eq]

theorem eatWhitespace_signature (text tail : Bytes) :
    eatWhitespace false (byte '\n' :: signatureObject text tail) = signatureObject text tail := rfl

/-- It is read back. -/
theorem readObject_signature {text decoded : Bytes} (tail : Bytes) (hdash : ∀ b ∈ text, b ≠ byte '-')
    (hlen : text.length ≤ maxLineLength) (hdecoded : base64Decode text = some decoded) :
    beginsObject (signatureObject text tail) = true
      ∧ readObject D .needObj (signatureObject text tail)
        = .ok (⟨cstring "SIGNATURE", decoded, none⟩, byte '\n' :: tail) := by
  have hbegin : 11 ≤ (cstring "-----BEGIN SIGNATURE-----").length
      ∧ beginOk (cstring "-----BEGIN SIGNATURE-----") = true
      ∧ cstring "SIGNATURE" = objectTypeOf (cstring "-----BEGIN SIGNATURE-----") := by
    decide
  have hend : cstring "-----END SIGNATURE-----"
      = cstring "-----END " ++ cstring "SIGNATURE" ++ cstring "-----" := by decide
  have hpre : cstring "-----BEGIN " <+: signatureObject text tail :=
    (show cstring "-----BEGIN " <+: cstring "-----BEGIN SIGNATURE-----" from
      ⟨cstring "SIGNATURE-----", by decide⟩).trans (List.prefix_append _ _)
  obtain ⟨hline, hafter⟩ := line_cut
    (show byte '\n' ∉ cstring "-----BEGIN SIGNATURE-----" by decide)
    (text ++ (cstring "-----END SIGNATURE-----" ++ byte '\n' :: tail))
  obtain ⟨hnline, hnafter⟩ := line_cut
    (show byte '\n' ∉ cstring "-----END SIGNATURE-----" by decide) tail
  -- base64 has no dash, so the first end marker is the real one
  have hmem : memstr (cstring "-----END ")
      (text ++ (cstring "-----END SIGNATURE-----" ++ byte '\n' :: tail))
      = some (text, cstring "-----END SIGNATURE-----" ++ byte '\n' :: tail) :=
    memstr_skip hdash ((show cstring "-----END " <+: cstring "-----END SIGNATURE-----" from
      ⟨cstring "SIGNATURE-----", by decide⟩).trans (List.prefix_append _ _))
  constructor
  · unfold beginsObject
    rw [List.isPrefixOf_iff_prefix.mpr hpre, signatureObject, hline, decide_eq_true hbegin.1]
    simp
  · rw [readObject_iff, signatureObject, hline, hafter]
    exact ⟨hbegin.2.1, hbegin.2.2, text, _, hmem, hnline.trans hend, hlen, hdecoded, rfl,
      hnafter.symm⟩

/-- The item `router-signature` with its object is one token. -/
theorem getNextToken_rsaLines (tail : Bytes) :
    ∃ tok, getNextToken D routerdescTokenTable (K.rsaLines body tail)
        = .ok (tok, byte '\n' :: tail) ∧ tok.tp = .routerSignature := by
  have hdash : ∀ b ∈ K.rsa (body ++ cstring "router-signature\n"), b ≠ byte '-' := by
    intro b hb
    rcases K.rsa_base64 _ b hb with h64 | rfl | rfl
    · rintro rfl
      exact absurd h64 (by decide)
    · decide
    · decide
  obtain ⟨decoded, hdecoded⟩ := Option.isSome_iff_exists.mp (K.rsa_decodes
    (body ++ cstring "router-signature\n"))
  obtain ⟨hbegins, hread⟩ := readObject_signature D tail hdash (K.rsa_length _) hdecoded
  have hskip := eatWhitespace_signature (K.rsa (body ++ cstring "router-signature\n")) tail
  unfold Signer.rsaLines
  generalize signatureObject (K.rsa (body ++ cstring "router-signature\n")) tail = object
    at hbegins hread hskip
  obtain ⟨hline, hafter⟩ := line_cut
    (show byte '\n' ∉ cstring "router-signature" by decide) object
  have heat : eatWhitespace false (cstring "router-signature" ++ byte '\n' :: object)
      = cstring "router-signature" ++ byte '\n' :: object :=
    eatWhitespace_cons (show isWhitespace (byte 'r') = false by decide) _
  have htoken : lineToken routerdescTokenTable (skipOpt (cstring "router-signature"))
      = .ok ({ tp := .routerSignature, args := [] }, cstring "router-signature", .needObj) := by
    decide +kernel
  refine ⟨{ tp := .routerSignature, args := [], object := some ⟨cstring "SIGNATURE", decoded, none⟩ },
    ?_, rfl⟩
  rw [getNextToken_iff, heat, hline, hafter, hskip]
  exact ⟨by decide, by simp, _, _, _, some ⟨cstring "SIGNATURE", decoded, none⟩, htoken,
    optObject_iff.mpr (.inr ⟨hbegins, _, rfl, hread⟩), rfl⟩

/-- The keywords of the signatures. -/
def Signer.keywords (K : Signer) : List DirectoryKeyword :=
  if K.emitEdSigs then [.routerSigEd25519, .routerSignature] else [.routerSignature]

theorem tokenizeLoop_rsaLines {tail : Bytes} (htail : IsTail tail) :
    ∃ tok, tokenizeLoop D routerdescTokenTable (K.rsaLines body tail) = .ok [tok]
      ∧ tok.tp = .routerSignature := by
  obtain ⟨tok, hnext, htp⟩ := getNextToken_rsaLines D K body tail
  refine ⟨tok, tokenizeLoop_last hnext ?_, htp⟩
  rcases htail with rfl | rfl
  · rfl
  · rfl

/-- What follows the injected line begins with a keyword. -/
theorem signed_head (tail : Bytes) : ∃ bs, K.signed body tail = byte 'r' :: bs := by
  unfold Signer.signed Signer.edLine
  split
  · exact ⟨_, rfl⟩
  · exact ⟨_, rfl⟩

theorem tokenizeLoop_signed {tail : Bytes} (htail : IsTail tail) :
    ∃ toks, tokenizeLoop D routerdescTokenTable (K.signed body tail) = .ok toks
      ∧ toks.map DirectoryToken.tp = K.keywords := by
  obtain ⟨tok, htok, htp⟩ := tokenizeLoop_rsaLines D K (body ++ K.edLine body) htail
  unfold Signer.signed Signer.keywords
  cases hemit : K.emitEdSigs with
  | false =>
    have hnone : K.edLine body = [] := by
      unfold Signer.edLine
      rw [hemit]
      rfl
    rw [hnone] at htok ⊢
    exact ⟨[tok], htok, congrArg (fun tp => [tp]) htp⟩
  | true =>
    obtain ⟨ed, hed, hedtp⟩ := getNextToken_edLine D K body hemit
    have hends : EndsLine (K.edLine body) := by
      unfold Signer.edLine
      rw [if_pos hemit]
      exact endsLine_newline _
    refine ⟨[ed] ++ [tok], tokenizeLoop_append_item hends (tokenizeLoop_last hed rfl) htok ⟨_, rfl⟩
      (by decide) (by decide), ?_⟩
    rw [List.map_append, List.map_singleton, List.map_singleton, htp, hedtp]
    rfl

/-- Of two newlines at the end one is cut off. -/
theorem trimEnd_newlines (x : Bytes) {b : UInt8} (hb : b ≠ byte '\n') :
    trimEnd (x ++ [b, byte '\n', byte '\n']) = x ++ [b, byte '\n'] := by
  have hdrop : (x ++ [b, byte '\n', byte '\n']).dropLast = x ++ [b, byte '\n'] := by
    rw [List.dropLast_append_of_ne_nil (by simp)]
    rfl
  have hdrop' : (x ++ [b, byte '\n']).dropLast = x ++ [b] := by
    rw [List.dropLast_append_of_ne_nil (by simp)]
    rfl
  rw [trimEnd, hdrop, if_pos ⟨by simp, by simp, by simp⟩, trimEnd, hdrop', if_neg]
  rintro ⟨-, -, hlast⟩
  rw [List.getLast?_concat] at hlast
  exact hb (Option.some.inj hlast)

/-- Behind the signatures it is the last newline. -/
theorem trimEnd_signed (x : Bytes) :
    trimEnd (x ++ K.signed body [byte '\n']) = x ++ K.signed body [] := by
  obtain ⟨pre, hpre⟩ : ∃ pre, ∀ tail, K.signed body tail = pre ++ byte '-' :: byte '\n' :: tail := by
    refine ⟨K.edLine body ++ (cstring "router-signature" ++ byte '\n'
      :: (cstring "-----BEGIN SIGNATURE-----" ++ byte '\n'
        :: (K.rsa (body ++ K.edLine body ++ cstring "router-signature\n")
          ++ cstring "-----END SIGNATURE----"))), fun tail => ?_⟩
    have hend : cstring "-----END SIGNATURE-----" = cstring "-----END SIGNATURE----" ++ [byte '-'] := by
      decide
    unfold Signer.signed Signer.rsaLines signatureObject
    rw [hend]
    simp only [List.append_assoc, List.cons_append, List.nil_append]
  rw [hpre, hpre, ← List.append_assoc, ← List.append_assoc]
  exact trimEnd_newlines (x ++ pre) (by decide)

end Signatures

/-! ## The proof in the descriptor -/

section Injected

/-- A text without blanks, control characters and delimiters. -/
def IsPlain (t : Text) : Prop := t ≠ [] ∧ ∀ c ∈ t, 32 < c.toNat ∧ c ≠ '#' ∧ c ≠ '|'

instance (t : Text) : Decidable (IsPlain t) :=
  (inferInstance : Decidable (t ≠ [] ∧ ∀ c ∈ t, 32 < c.toNat ∧ c ≠ '#' ∧ c ≠ '|'))

/-- The bytes of a plain text are one argument. -/
theorem IsPlain.bytes {t : Text} (h : IsPlain t) :
    (utf8Bytes t ≠ [] ∧ ∀ b ∈ utf8Bytes t, isWhitespace b = false) ∧ byte '|' ∉ utf8Bytes t := by
  have hmem : ∀ {b : UInt8}, b.toNat < 128 → b ∈ utf8Bytes t → 32 < b.toNat
      ∧ Char.ofNat b.toNat ≠ '#' ∧ Char.ofNat b.toNat ≠ '|' := by
    intro b hb hin
    have hc := h.2 _ (ascii_mem_encode hb hin)
    rwa [toNat_ofNat_valid (.inl (by omega))] at hc
  refine ⟨⟨?_, fun b hb => ?_⟩, fun hbar => (hmem (by decide) hbar).2.2 (by decide)⟩
  · obtain ⟨c, cs, rfl⟩ := List.exists_cons_of_ne_nil h.1
    unfold utf8Bytes
    rw [List.flatMap_cons]
    simp [String.utf8EncodeChar_ne_nil]
  · refine Bool.eq_false_iff.mpr fun hws => ?_
    rcases whitespace_cases hws with rfl | rfl | rfl | rfl | rfl | rfl <;>
      exact absurd (hmem (by decide) hb) (by decide)

theorem utf8Bytes_intercalate (sep : Char) (hsep : String.utf8EncodeChar sep = [byte sep])
    (fields : List Text) :
    utf8Bytes ([sep].intercalate fields) = [byte sep].intercalate (fields.map utf8Bytes) := by
  induction fields with
  | nil => rfl
  | cons f fs ih =>
    cases fs with
    | nil => simp
    | cons g gs =>
      rw [List.intercalate_cons_cons, List.map_cons, List.map_cons, List.intercalate_cons_cons,
        ← List.map_cons, ← ih]
      unfold utf8Bytes
      rw [List.flatMap_append, List.flatMap_append, List.flatMap_singleton, hsep]

/-- A file of one line without its newline is injected with it. -/
theorem injectProof_line {file : Bytes} (hne : file ≠ []) (hclean : ∀ b ∈ file, b ≠ 0 ∧ b ≠ byte '\n')
    (hlen : file.length + 1 < proofBufSize) : injectProof (some file) = file ++ [byte '\n'] := by
  have hline : lineOf file = file ∧ afterLine file = [] := by
    have hall : ∀ b ∈ file, decide (b ≠ byte '\n') = true :=
      fun b hb => decide_eq_true (hclean b hb).2
    exact ⟨List.takeWhile_eq_self_iff.mpr hall, List.dropWhile_eq_nil_iff.mpr hall⟩
  have hread : fgets proofBufSize file = some file := by
    unfold fgets
    rw [if_neg hne, hline.1, hline.2, List.take_nil, List.append_nil, List.take_of_length_le]
    omega
  -- the whole line is in the buffer, and the C string ends where it ends
  have hbuf : file.takeWhile (fun b => b ≠ 0) = file :=
    List.takeWhile_eq_self_iff.mpr fun b hb => decide_eq_true (hclean b hb).1
  have hlast : file.getLast? ≠ some (byte '\n') :=
    fun h => (hclean _ (List.mem_of_getLast? h)).2 rfl
  unfold injectProof
  rw [Option.bind_some, hread]
  dsimp only
  rw [hbuf, if_pos ⟨List.length_pos_iff.mpr hne, hlast⟩, List.take_of_length_le]
  · rfl
  · show 1 ≤ proofBufSize - file.length - 1
    omega

/-- The arguments of a proof. -/
def proofArguments (f : ProofFields) : List Bytes := (torContext :: f.toList).map utf8Bytes

theorem proofArguments_clean {f : ProofFields} (hf : ∀ t ∈ f.toList, IsPlain t) :
    CleanArgs (cstring "dittor-proof" :: proofArguments f) ∧ BarFree (proofArguments f) := by
  have hkw : IsPlain "dittor-proof".toList := by decide
  have hctx : IsPlain torContext := by decide
  have hall : ∀ t ∈ torContext :: f.toList, IsPlain t := by
    intro t ht
    rcases List.mem_cons.mp ht with rfl | ht
    · exact hctx
    · exact hf t ht
  constructor
  · intro a ha
    rcases List.mem_cons.mp ha with rfl | ha
    · exact hkw.bytes.1
    · obtain ⟨t, ht, rfl⟩ := List.mem_map.mp ha
      exact (hall t ht).bytes.1
  · intro a ha
    obtain ⟨t, ht, rfl⟩ := List.mem_map.mp (List.mem_of_mem_take ha)
    exact (hall t ht).bytes.2

/-- The file, as the arguments joined behind the keyword. -/
theorem utf8Bytes_proofLine (f : ProofFields) :
    utf8Bytes (buildDittorProofLine torContext f)
      = [byte ' '].intercalate (cstring "dittor-proof" :: proofArguments f) :=
  utf8Bytes_intercalate ' ' (by decide) ("dittor-proof".toList :: torContext :: f.toList)

/-- A request that fits into its buffer leaves room for the line in the other one. -/
theorem length_proofLine {f : ProofFields} {d : Descriptor}
    (hfits : (validationLine (proofArguments f) d).length < payloadSize) :
    ([byte ' '].intercalate (cstring "dittor-proof" :: proofArguments f)).length + 1
      < proofBufSize := by
  have hline := length_validationLine (show 8 ≤ (proofArguments f).length from le_refl 8) d
  have hjoin := length_intercalate (byte ' ') (cstring "dittor-proof" :: proofArguments f) (by simp)
  have hsum : ((cstring "dittor-proof" :: proofArguments f).map fun a => a.length + 1).sum
      = 21 + (((proofArguments f).take 8).map List.length).sum := by
    unfold proofArguments ProofFields.toList
    simp only [List.map_cons, List.map_nil, List.take_succ_cons, List.take_zero, List.sum_cons,
      List.sum_nil, show (cstring "dittor-proof").length = 12 by decide]
    omega
  unfold payloadSize at hfits
  unfold proofBufSize
  omega

end Injected

/-! ## The whole way -/

section Whole

/-- A descriptor without a proof, up to where the line goes, and the keys that sign it: it
consists of complete items, and with the signatures it passes the checks. -/
structure RelayDescriptor (D : KeyDecoder) (flags : TokenizeFlags) (out : List DirectoryToken) where
  chunks : Bytes
  signer : Signer
  tokens : List DirectoryToken
  tokenized : tokenizeLoop D routerdescTokenTable chunks = .ok tokens
  endsLine : EndsLine chunks
  noNul : 0 ∉ chunks
  router : ∃ tok ∈ tokens, tok.tp = .router
  noProof : ∀ tok ∈ out ++ tokens, tok.tp ≠ .optDittorProof
  checked : checkTokens routerdescTokenTable flags out.length
    ((out ++ tokens).map DirectoryToken.tp ++ signer.keywords) = .ok ()

/-- The ten fields of the request for a proof in a descriptor. -/
def ProofFields.request (f : ProofFields) (d : Descriptor) : RequestFields :=
  ⟨torContext, f.pkJSON, f.nymJSON, f.zkpJSON, f.g1xJSON, f.credentialJSON, f.dleqChallengeJSON,
    f.dleqResponseJSON, upperHex d.identityDigest,
    familyText (d.familyIds.map fun f => decodeUtf8 f.text)⟩

/-- The registration that a proof in a descriptor stands for. -/
def ProofFields.message {p : ℕ} {G1 G2 GT : Type} (R : Restorer p G1 G2 GT) (f : ProofFields)
    (d : Descriptor) : Option (RegisterRelayMsg p G1 G2 GT) := do
  let pk ← R.restoreG2 (sanitizeJsonString f.pkJSON)
  let nym ← R.restoreGT (sanitizeJsonString f.nymJSON)
  let zkp ← R.restoreG1 (sanitizeJsonString f.zkpJSON)
  let g1x ← R.restoreG1 (sanitizeJsonString f.g1xJSON)
  let credential ← R.restoreG1 (sanitizeJsonString f.credentialJSON)
  let challenge ← R.restoreZn (sanitizeJsonString f.dleqChallengeJSON)
  let response ← R.restoreZn (sanitizeJsonString f.dleqResponseJSON)
  return { userPublicKeyG2 := pk, vrfData := ⟨nym, zkp⟩, credentialCommitmentG1 := g1x
           credential := credential, dleqProof := ⟨challenge, response⟩
           context := torContext, nodeId := upperHex d.identityDigest
           familyIds := d.familyIds.map fun f => decodeUtf8 f.text }

/-- A request that the bridge decodes to the fields of a proof, the identity and the family
ids of a descriptor. -/
structure Decodes (request : Text) (f : ProofFields) (d : Descriptor) : Prop where
  validate : validatePrefix.isPrefixOf request = true ∧ 9 ≤ request.length
  fields : splitFields (javaTrim (request.drop 9)) = some (f.request d)
  /-- There is nothing to trim in any field. -/
  trimmed : ∀ t ∈ torContext :: upperHex d.identityDigest :: f.toList, javaTrim t = t
  /-- What is checked and registered is restored from these texts. -/
  message : ∀ {p : ℕ} {G1 G2 GT : Type} (R : Restorer p G1 G2 GT),
    parseRequest R (javaTrim (request.drop 9)) = f.message R d

variable {D : KeyDecoder} {flags : TokenizeFlags} {out : List DirectoryToken}

/-- Where a text without NUL is tokenized, its tokens are those of the loop. -/
theorem tokenizeString_tokens {s : Bytes} {toks tokens : List DirectoryToken} (hnul : 0 ∉ s)
    (hloop : tokenizeLoop D routerdescTokenTable s = .ok toks)
    (h : tokenizeString D routerdescTokenTable flags out s = .ok tokens) : tokens = out ++ toks := by
  unfold tokenizeString at h
  rw [if_neg hnul, hloop] at h
  obtain ⟨_, hloop', h⟩ := except_bind_eq_ok.mp h
  obtain rfl := Except.ok.inj hloop'
  obtain ⟨_, -, h⟩ := except_bind_eq_ok.mp h
  exact (Except.ok.inj h).symm

/-- The injected line is one token with the fields as its arguments. -/
theorem tokenizeLoop_proof (D : KeyDecoder) {f : ProofFields} (hf : ∀ t ∈ f.toList, IsPlain t)
    {d : Descriptor} (hfits : (validationLine (proofArguments f) d).length < payloadSize) :
    tokenizeLoop D routerdescTokenTable
        (injectProof (some (utf8Bytes (buildDittorProofLine torContext f))))
      = .ok [{ tp := .optDittorProof, args := proofArguments f }]
      ∧ EndsLine (injectProof (some (utf8Bytes (buildDittorProofLine torContext f))))
      ∧ (∃ bs, injectProof (some (utf8Bytes (buildDittorProofLine torContext f)))
        = byte 'd' :: bs)
      ∧ 0 ∉ injectProof (some (utf8Bytes (buildDittorProofLine torContext f))) := by
  obtain ⟨hclean, -⟩ := proofArguments_clean hf
  have hlen := length_proofLine hfits
  have hbytes := intercalate_clean hclean
  have hnext : getNextToken D routerdescTokenTable
      ([byte ' '].intercalate (cstring "dittor-proof" :: proofArguments f) ++ [byte '\n'])
        = .ok ({ tp := .optDittorProof, args := proofArguments f }, []) := by
    refine getNextToken_line
      (r := TokenRule.t01 "dittor-proof" .optDittorProof (.ge 8) .noObj) (by decide)
      hclean (by simp [proofArguments]) (by decide) rfl rfl (le_refl 8) (show 8 ≤ intMax by decide)
      (show 8 ≤ maxArgs by decide) ?_
    unfold proofBufSize at hlen
    unfold maxLineLength
    omega
  have hinject : injectProof (some (utf8Bytes (buildDittorProofLine torContext f)))
      = [byte ' '].intercalate (cstring "dittor-proof" :: proofArguments f) ++ [byte '\n'] := by
    rw [utf8Bytes_proofLine]
    refine injectProof_line ?_ hbytes hlen
    obtain ⟨b, bs, hb, -⟩ := hclean.head (by simp)
    rw [hb]
    simp
  rw [hinject]
  refine ⟨tokenizeLoop_last hnext rfl, endsLine_newline _, ⟨_, rfl⟩, ?_⟩
  · intro hnul
    rcases List.mem_append.mp hnul with hnul | hnul
    · exact (hbytes 0 hnul).1 rfl
    · exact absurd (List.mem_singleton.mp hnul) (by decide)

/-- No byte of the signatures is NUL. -/
theorem signed_noNul (K : Signer) (body : Bytes) {tail : Bytes} (htail : IsTail tail) :
    0 ∉ K.signed body tail := by
  have hed : ∀ text, 0 ∉ K.ed25519 text := fun text hmem =>
    absurd ((K.ed25519_base64 text).2 0 hmem) (by decide)
  have hrsa : ∀ text, 0 ∉ K.rsa text := by
    intro text hmem
    rcases K.rsa_base64 text 0 hmem with h | h | h
    · exact absurd h (by decide)
    · exact absurd h (by decide)
    · exact absurd h (by decide)
  have hlit : 0 ∉ cstring "router-sig-ed25519 " ∧ 0 ∉ cstring "\n" ∧ 0 ∉ cstring "router-signature"
      ∧ 0 ∉ cstring "-----BEGIN SIGNATURE-----" ∧ 0 ∉ cstring "-----END SIGNATURE-----" := by
    decide
  have htail0 : 0 ∉ byte '\n' :: tail := by
    rcases htail with rfl | rfl
    · decide
    · decide
  obtain ⟨h1, h2, h3, h4, h5⟩ := hlit
  have hline : 0 ∉ K.edLine body := by
    unfold Signer.edLine
    split
    · simp only [List.mem_append, h1, h2, hed, or_self, not_false_iff]
    · exact List.not_mem_nil
  have hnewline : ¬ (0 : UInt8) = byte '\n' := by decide
  unfold Signer.signed Signer.rsaLines signatureObject
  simp only [List.mem_append, List.mem_cons (b := byte '\n'), hnewline, hline, h3, h4, h5, hrsa,
    false_or] at htail0 ⊢
  exact htail0

/-- The checks allow one proof. -/
theorem checkTokens_proof (B : RelayDescriptor D flags out) :
    checkTokens routerdescTokenTable flags out.length
      ((out ++ B.tokens).map DirectoryToken.tp ++ .optDittorProof :: B.signer.keywords) = .ok () := by
  have hrule : ∀ r ∈ routerdescTokenTable, r.v = .optDittorProof →
      r.minCnt ≤ 1 ∧ 1 ≤ r.maxCnt := by decide
  have hkeys : B.signer.keywords ≠ [] ∧ DirectoryKeyword.optDittorProof ∉ B.signer.keywords := by
    unfold Signer.keywords
    split
    · decide
    · decide
  refine checkTokens_insert ?_ hkeys.1 rfl ?_ hrule B.checked
  · obtain ⟨tok, hmem, htp⟩ := B.router
    exact ⟨tok.tp, List.mem_map_of_mem (List.mem_append_right out hmem), by rw [htp]; rfl⟩
  · intro hmem
    rcases List.mem_append.mp hmem with hmem | hmem
    · obtain ⟨tok, htok, htp⟩ := List.mem_map.mp hmem
      exact B.noProof tok htok htp
    · exact hkeys.2 hmem

/-- **The descriptor with the injected line** has one token more, whether its last newline is
cut off or not. -/
theorem tokenizeLoop_injected (B : RelayDescriptor D flags out) {f : ProofFields}
    (hf : ∀ t ∈ f.toList, IsPlain t) {d : Descriptor}
    (hfits : (validationLine (proofArguments f) d).length < payloadSize) {body tail : Bytes}
    (hbody : body = B.chunks ++ injectProof (some (utf8Bytes (buildDittorProofLine torContext f))))
    (htail : IsTail tail) :
    ∃ sigs, tokenizeLoop D routerdescTokenTable (body ++ B.signer.signed body tail)
        = .ok (B.tokens ++ ({ tp := .optDittorProof, args := proofArguments f } :: sigs))
      ∧ sigs.map DirectoryToken.tp = B.signer.keywords
      ∧ 0 ∉ body ++ B.signer.signed body tail := by
  obtain ⟨hproof, hends, ⟨bs, hhead⟩, hnul⟩ := tokenizeLoop_proof D hf hfits
  obtain ⟨sigs, hsigs, hkeys⟩ := tokenizeLoop_signed D B.signer body htail
  have hsighead := signed_head B.signer body tail
  have hsignul := signed_noNul B.signer body htail
  subst hbody
  generalize injectProof (some (utf8Bytes (buildDittorProofLine torContext f))) = line
    at hproof hends hhead hnul hsigs hsighead hsignul ⊢
  generalize B.signer.signed (B.chunks ++ line) tail = sig at hsigs hsighead hsignul ⊢
  -- first the line in front of the signatures, then the descriptor in front of both
  have htoks : tokenizeLoop D routerdescTokenTable (line ++ sig)
      = .ok ([{ tp := .optDittorProof, args := proofArguments f }] ++ sigs) :=
    tokenizeLoop_append_item hends hproof hsigs hsighead (by decide) (by decide)
  have hboth : line ++ sig = byte 'd' :: (bs ++ sig) := by rw [hhead, List.cons_append]
  refine ⟨sigs, ?_, hkeys, ?_⟩
  · rw [List.append_assoc]
    exact tokenizeLoop_append_item B.endsLine B.tokenized htoks ⟨_, hboth⟩ (by decide) (by decide)
  · simp [B.noNul, hnul, hsignul]

/-- With the tokens of the annotations in front, all checks pass. -/
theorem tokenizeString_injected (B : RelayDescriptor D flags out) {f : ProofFields}
    (hf : ∀ t ∈ f.toList, IsPlain t) {d : Descriptor}
    (hfits : (validationLine (proofArguments f) d).length < payloadSize) {body tail : Bytes}
    (hbody : body = B.chunks ++ injectProof (some (utf8Bytes (buildDittorProofLine torContext f))))
    (htail : IsTail tail) :
    ∃ sigs, tokenizeString D routerdescTokenTable flags out (body ++ B.signer.signed body tail)
      = .ok (out ++ B.tokens ++ ({ tp := .optDittorProof, args := proofArguments f } :: sigs)) := by
  obtain ⟨sigs, hloop, hkeys, hnul⟩ := tokenizeLoop_injected B hf hfits hbody htail
  refine ⟨sigs, ?_⟩
  unfold tokenizeString
  rw [if_neg hnul, hloop]
  refine except_bind_eq_ok.mpr ⟨_, rfl, except_bind_eq_ok.mpr ⟨(), ?_, ?_⟩⟩
  · rw [← List.append_assoc, List.map_append, List.map_cons, hkeys]
    exact checkTokens_proof B
  · rw [← List.append_assoc]
    rfl

/-- The first proof among the tokens is the injected one. -/
theorem findOptByKeyword_injected {before : List DirectoryToken} {tok : DirectoryToken}
    (sigs : List DirectoryToken) (hbefore : ∀ t ∈ before, t.tp ≠ .optDittorProof)
    (htok : tok.tp = .optDittorProof) :
    findOptByKeyword (before ++ (tok :: sigs)) .optDittorProof = some tok := by
  have hnone : before.find? (fun t => t.tp = .optDittorProof) = none := by
    rw [List.find?_eq_none]
    intro t ht heq
    exact hbefore t ht (of_decide_eq_true heq)
  unfold findOptByKeyword
  rw [List.find?_append, hnone, Option.none_or]
  exact List.find?_cons_of_pos (decide_eq_true htok)

theorem plain_trim {t : Text} (h : IsPlain t) : javaTrim t = t := by
  have hvisible : ∀ c ∈ t, isBlank c = false := by
    intro c hc
    have hgt := (h.2 c hc).1
    unfold isBlank
    rw [decide_eq_false_iff_not]
    omega
  exact javaTrim_eq_self (fun c hc => hvisible c (List.mem_of_mem_head? hc))
    fun c hc => hvisible c (List.mem_of_getLast? hc)

/-- The bridge reads the line of a plain proof, and decodes it. -/
theorem decodes_proof {f : ProofFields} (hf : ∀ t ∈ f.toList, IsPlain t) (d : Descriptor)
    (hfits : (validationLine (proofArguments f) d).length < payloadSize) :
    ∃ request, readLine (snprintf payloadSize (validationLine (proofArguments f) d)) false
        = .line request ∧ Decodes request f d := by
  obtain ⟨hclean, hbar⟩ := proofArguments_clean hf
  have hhead : (proofArguments f).head? = some (cstring "TorRelayConsensus2026") :=
    congrArg some (show utf8Bytes torContext = cstring "TorRelayConsensus2026" by decide)
  have hargs : ∀ a ∈ proofArguments f, ∀ b ∈ a, isWhitespace b = false :=
    fun a ha => (hclean a (List.mem_cons_of_mem _ ha)).2
  refine ⟨"VALIDATE ".toList ++ payloadText (proofArguments f) d, ?_, ?_⟩
  · rcases snprintf_line (proofArguments f) d with ⟨-, hline⟩ | ⟨hlong, -⟩
    · rw [hline, readLine_complete (lineBody_no_end hargs), decode_lineBody]
    · omega
  · have hpayload : ("VALIDATE ".toList ++ payloadText (proofArguments f) d).drop 9
        = payloadText (proofArguments f) d := rfl
    have hback : ∀ t : Text, decodeUtf8 (utf8Bytes t) = t := decodeUtf8_encode_self
    have hfields : splitFields (javaTrim (("VALIDATE ".toList ++ payloadText (proofArguments f) d).drop 9))
        = some (f.request d) := by
      rw [hpayload, javaTrim_payload hhead]
      unfold ProofFields.request proofArguments ProofFields.toList at *
      simp only [List.map_cons, List.map_nil] at hbar ⊢
      rw [splitFields_args hbar]
      simp only [hback, decode_familyIdsStr, Descriptor.nodeIdHex, decode_base16Encode]
    have hfamily : parseFamilyIds (javaTrim (familyText (d.familyIds.map fun f => decodeUtf8 f.text)))
        = d.familyIds.map fun f => decodeUtf8 f.text := by
      rw [← decode_familyIdsStr]
      exact parseFamilyIds_own d
    have hhex : javaTrim (upperHex d.identityDigest) = upperHex d.identityDigest := by
      rw [← decode_base16Encode]
      exact javaTrim_graphic fun b hb => (mem_base16Encode hb).1
    have hctx : javaTrim torContext = torContext := plain_trim (by decide)
    refine ⟨⟨rfl, ?_⟩, hfields, ?_, ?_⟩
    · rw [List.length_append]
      exact Nat.le_add_right 9 _
    · intro t ht
      rcases List.mem_cons.mp ht with rfl | ht
      · exact hctx
      · rcases List.mem_cons.mp ht with rfl | ht
        · exact hhex
        · exact plain_trim (hf t ht)
    · intro p G1 G2 GT R
      unfold parseRequest
      rw [hfields, Option.bind_some]
      unfold restoreFields ProofFields.request ProofFields.message
      dsimp only
      rw [hctx, hhex, hfamily]

variable {p : ℕ} {G1 G2 GT : Type} [CommGroup G1] [CommGroup G2] [CommGroup GT] [DecidableEq GT]
  {Policy : Type}

/-- **The proof survives the whole way.** For every proof with plain fields whose request
fits into its buffer, and every text with it that `router_dump_router_to_string` returns,
whatever the backend of the relay's own machine is: the text is tokenized, the block finds the
token, the relay's own parser has already sent the request of that token, and the bridge decodes
the line of a descriptor's identity and family ids to the same eight fields, that identity and
these family ids, and restores the registration from them. -/
theorem proof_survives_pipeline (L : RouterLib Policy) (C : SignatureChecks)
    (R : Restorer p G1 G2 GT) (S : CryptimeleonSetup p G1 G2 GT) (bridge : Bool) {da da' : DA G2}
    (B : RelayDescriptor D flags out) {f : ProofFields} (hf : ∀ t ∈ f.toList, IsPlain t)
    {text : Bytes} (hdump : routerDumpRouterToString L D C R S bridge B.signer da B.chunks
      (some (utf8Bytes (buildDittorProofLine torContext f))) = (da', some text))
    (d : Descriptor) (hfits : (validationLine (proofArguments f) d).length < payloadSize) :
    ∃ toks tok request,
      tokenizeString D routerdescTokenTable flags out (trimEnd text) = .ok toks
        ∧ findOptByKeyword toks .optDittorProof = some tok
        ∧ (tok.args.head? = some (cstring "TorRelayConsensus2026") ∧ 8 ≤ tok.args.length)
        ∧ (∃ router : RouterInfo Policy, (routerParseEntryFromString L D C {}
            (fun message => (loopbackProxy R S bridge da message).2) text).request
              = some (validationPayload tok.args router))
        ∧ readLine (snprintf payloadSize (validationLine tok.args d)) false = .line request
        ∧ Decodes request f d := by
  obtain ⟨hrouter, htext⟩ := routerDump_returned hdump
  have htrim := trimEnd_signed B.signer (B.chunks
    ++ injectProof (some (utf8Bytes (buildDittorProofLine torContext f)))) (B.chunks
    ++ injectProof (some (utf8Bytes (buildDittorProofLine torContext f))))
  rw [signatures_eq] at htext
  rw [← htext] at htrim
  obtain ⟨sigs, htoks⟩ := tokenizeString_injected B hf hfits rfl (.inl rfl)
  obtain ⟨request, hread, hdecodes⟩ := decodes_proof hf d hfits
  have hhead : (proofArguments f).head? = some (cstring "TorRelayConsensus2026") :=
    congrArg some (show utf8Bytes torContext = cstring "TorRelayConsensus2026" by decide)
  refine ⟨_, { tp := .optDittorProof, args := proofArguments f }, request, by rw [htrim, htoks],
    findOptByKeyword_injected sigs B.noProof rfl, ⟨hhead, le_refl 8⟩, ?_, hread, hdecodes⟩
  -- the relay's own parser has found the same token
  obtain ⟨info, hinfo⟩ := Option.isSome_iff_exists.mp hrouter
  obtain ⟨tokens, router, args, hown, hargs, hrequest⟩ := routerParse_plain hinfo
  obtain ⟨sigs', hloop, -, hnul⟩ := tokenizeLoop_injected B hf hfits rfl (.inl rfl)
  rw [htrim] at hown
  obtain rfl := tokenizeString_tokens hnul hloop hown
  have hfind := findOptByKeyword_injected sigs'
    (fun t ht => B.noProof t (List.mem_append_right out ht))
    (show ({ tp := .optDittorProof, args := proofArguments f } : DirectoryToken).tp
      = .optDittorProof from rfl)
  unfold dittorProofArgs at hargs
  rw [List.nil_append, hfind, Option.bind_some] at hargs
  split at hargs
  next =>
    obtain rfl := Option.some.inj hargs
    exact ⟨router, hrequest⟩
  next => cases hargs

end Whole

/-! ## A descriptor -/

section Samples

/-- The lines of a small descriptor, with an RSA key of 1024 bits. -/
def sampleLines : List Bytes := [
  cstring "router test 192.0.2.1 9001 0 0",
  cstring "identity-ed25519",
  cstring "-----BEGIN ED25519 CERT-----",
  cstring "AAAA",
  cstring "-----END ED25519 CERT-----",
  cstring "master-key-ed25519 M",
  cstring "bandwidth 1 1 1",
  cstring "published 2024-01-01 00:00:00",
  cstring "signing-key",
  cstring "-----BEGIN RSA PUBLIC KEY-----",
  cstring "MIGJAoGBALcIIij7gNpvSZPvaCLDDNyyQZq7fR0aXiHgmiIc5hYVcBl+zF5sTX6a",
  cstring "jQF+GQdbSHcRzA1IMWPXnA7+nGOxSNayrQwExuf7ESsBaQHU81/dmV+rgTwtcd3K",
  cstring "9lobTQUm+idLvGjVF5P1XJkduPvURIgpIfXT1ZHJUQhwxWSw8MmnAgMBAAE=",
  cstring "-----END RSA PUBLIC KEY-----",
  cstring "ntor-onion-key-crosscert 0",
  cstring "-----BEGIN ED25519 CERT-----",
  cstring "BBBB",
  cstring "-----END ED25519 CERT-----",
  cstring "ntor-onion-key N",
  cstring "proto Link=1-5",
  cstring "reject *:*"]

def sampleChunks : Bytes := sampleLines.flatMap fun line => line ++ [byte '\n']

/-- The library on the one key there is. -/
def sampleKeys (numBits : ℕ) : KeyDecoder := fun _ => some ⟨numBits, false⟩

theorem sampleChunks_keywords :
    ((tokenizeLoop (sampleKeys 1024) routerdescTokenTable sampleChunks).toOption.map
        fun toks => toks.map DirectoryToken.tp)
      = some [.router, .identityEd25519, .masterKeyEd25519, .bandwidth, .published, .signingKey,
          .ntorOnionKeyCrosscert, .onionKeyNtor, .proto, .reject] := by
  unfold sampleChunks sampleLines
  decide +kernel

theorem sampleChunks_noNul : 0 ∉ sampleChunks := by
  unfold sampleChunks sampleLines
  decide +kernel

theorem sampleChunks_endsLine : EndsLine sampleChunks := by
  intro b hb
  have hlast : sampleChunks.getLast? = some (byte '\n') := by
    unfold sampleChunks sampleLines
    decide +kernel
  rw [hlast] at hb
  exact (Option.some.inj hb).symm

/-- `n` times the base64 of zero bits. -/
def zeroText (n : ℕ) : Bytes := List.replicate n (byte 'A')

theorem isBase64_zeroText {n : ℕ} {b : UInt8} (h : b ∈ zeroText n) : isBase64 b = true := by
  rw [List.eq_of_mem_replicate h]
  decide

/-- Zero bytes in lines of `n` characters and a last one of `m`, which is padded. -/
def zeroSignature (n m : ℕ) : Bytes :=
  zeroText n ++ [byte '\n'] ++ zeroText n ++ [byte '\n'] ++ zeroText m ++ [byte '=', byte '\n']

theorem mem_zeroSignature {n m : ℕ} {b : UInt8} (h : b ∈ zeroSignature n m) :
    isBase64 b = true ∨ b = byte '=' ∨ b = byte '\n' := by
  unfold zeroSignature at h
  simp only [List.mem_append, List.mem_cons, List.not_mem_nil, or_false] at h
  rcases h with ((((h | h) | h) | h) | h) | h
  · exact .inl (isBase64_zeroText h)
  · exact .inr (.inr h)
  · exact .inl (isBase64_zeroText h)
  · exact .inr (.inr h)
  · exact .inl (isBase64_zeroText h)
  · exact .inr h

theorem length_zeroSignature (n m : ℕ) : (zeroSignature n m).length = 2 * n + m + 4 := by
  simp only [zeroSignature, zeroText, List.length_append, List.length_replicate, List.length_cons,
    List.length_nil]
  omega

/-- A signer whose signatures are zero. -/
def zeroSigner (l n m : ℕ) (hl : 0 < l ∧ l ≤ 86) (hnm : n ≤ 64 ∧ m ≤ 64)
    (hdecodes : (base64Decode (zeroSignature n m)).isSome) : Signer where
  emitEdSigs := true
  fails _ := false
  ed25519 _ := zeroText l
  rsa _ := zeroSignature n m
  ed25519_base64 _ :=
    ⟨fun h => absurd ((List.replicate_eq_nil_iff _).mp h) hl.1.ne', fun _ => isBase64_zeroText⟩
  ed25519_length _ := by
    rw [zeroText, List.length_replicate]
    exact hl.2
  rsa_base64 _ _ := mem_zeroSignature
  rsa_length _ := by
    rw [length_zeroSignature]
    unfold maxLineLength
    omega
  rsa_decodes _ := hdecodes

/-- Signatures of their real lengths. -/
theorem zeroSignature_decodes : (base64Decode (zeroSignature 64 43)).isSome := by decide +kernel

def sampleSigner : Signer := zeroSigner 86 64 43 (by decide) (by decide) zeroSignature_decodes

/-- A descriptor without a proof. -/
theorem exists_relayDescriptor : ∃ B : RelayDescriptor (sampleKeys 1024) {} [],
    B.chunks = sampleChunks ∧ B.signer = sampleSigner := by
  obtain ⟨toks, htoks, hkeys⟩ := Option.map_eq_some_iff.mp sampleChunks_keywords
  have htokenized : tokenizeLoop (sampleKeys 1024) routerdescTokenTable sampleChunks = .ok toks := by
    cases h : tokenizeLoop (sampleKeys 1024) routerdescTokenTable sampleChunks with
    | error e => rw [h] at htoks; cases htoks
    | ok toks' =>
      rw [h] at htoks
      exact congrArg Except.ok (Option.some.inj htoks)
  have hmem : DirectoryKeyword.router ∈ toks.map DirectoryToken.tp := by rw [hkeys]; decide
  have hnone : DirectoryKeyword.optDittorProof ∉ toks.map DirectoryToken.tp := by
    rw [hkeys]
    decide
  refine ⟨⟨sampleChunks, sampleSigner, toks, htokenized, sampleChunks_endsLine, sampleChunks_noNul,
    List.mem_map.mp hmem, fun tok htok htp => ?_, ?_⟩, rfl, rfl⟩
  · exact hnone (htp ▸ List.mem_map_of_mem htok)
  · rw [List.nil_append, hkeys]
    show checkTokens routerdescTokenTable {} 0 (_ ++ [.routerSigEd25519, .routerSignature]) = .ok ()
    decide +kernel

/-- A proof of one digit each. -/
def sampleProof : ProofFields := ⟨['1'], ['3'], ['3'], ['1'], ['3'], ['3'], ['3']⟩

/-- The relay's own parser accepts it, and the bridge registers it. -/
theorem sampleDump_returned :
    ∃ da text, routerDumpRouterToString sampleLib (sampleKeys 1024) anyChecks (digitRestorer 5)
      (productSetup 5 2) true sampleSigner ⟨.ofAdd 3, ∅⟩ sampleChunks
      (some (utf8Bytes (buildDittorProofLine torContext sampleProof))) = (da, some text) := by
  have hsome : (routerDumpRouterToString sampleLib (sampleKeys 1024) anyChecks (digitRestorer 5)
      (productSetup 5 2) true sampleSigner ⟨.ofAdd 3, ∅⟩ sampleChunks
      (some (utf8Bytes (buildDittorProofLine torContext sampleProof)))).2.isSome = true := by
    unfold sampleChunks sampleLines
    decide +kernel
  obtain ⟨text, htext⟩ := Option.isSome_iff_exists.mp hsome
  exact ⟨_, text, Prod.ext rfl htext⟩

/-- That proof in that descriptor. -/
theorem proof_survives_pipeline_one :
    ∃ (B : RelayDescriptor (sampleKeys 1024) {} []) (f : ProofFields) (d : Descriptor)
      (da : DA (Multiplicative (ZMod 5))) (text : Bytes),
      ((∀ t ∈ f.toList, IsPlain t) ∧ (validationLine (proofArguments f) d).length < payloadSize
          ∧ routerDumpRouterToString sampleLib (sampleKeys 1024) anyChecks (digitRestorer 5)
            (productSetup 5 2) true B.signer ⟨.ofAdd 3, ∅⟩ B.chunks
            (some (utf8Bytes (buildDittorProofLine torContext f))) = (da, some text))
        ∧ ∃ toks tok request,
          tokenizeString (sampleKeys 1024) routerdescTokenTable {} [] (trimEnd text) = .ok toks
            ∧ findOptByKeyword toks .optDittorProof = some tok
            ∧ readLine (snprintf payloadSize (validationLine tok.args d)) false = .line request
            ∧ Decodes request f d := by
  obtain ⟨B, hchunks, hsigner⟩ := exists_relayDescriptor
  have hf : ∀ t ∈ sampleProof.toList, IsPlain t := by decide
  have hfits : (validationLine (proofArguments sampleProof)
      (sampleDescriptor 9001).toDescriptor).length < payloadSize := by
    rw [length_validationLine (show 8 ≤ (proofArguments sampleProof).length by decide)]
    decide +kernel
  obtain ⟨da, text, hdump⟩ := sampleDump_returned
  rw [← hchunks, ← hsigner] at hdump
  obtain ⟨toks, tok, request, htoks, hfind, -, -, hread, hdecodes⟩ :=
    proof_survives_pipeline sampleLib anyChecks (digitRestorer 5) (productSetup 5 2) true B hf hdump
      (sampleDescriptor 9001).toDescriptor hfits
  exact ⟨B, sampleProof, _, da, text, ⟨hf, hfits, hdump⟩, toks, tok, request, htoks, hfind, hread,
    hdecodes⟩

end Samples

end Dittor.Tor

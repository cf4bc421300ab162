import Dittor.Tor.Descriptor

/-!
# The tokenizer of directory documents (`parsecommon.c`)

`tokenize_string` cuts a document into items by a table of rules: a keyword line,
and behind it, if the table allows it, an object between `-----BEGIN` and
`-----END` lines. A pointer into the document is the list of bytes from there to
its end. An error is the text that is logged; decoding a public key is a parameter
(`KeyDecoder`).

Every item takes at least one byte (`getNextToken_length`), so the loop ends. An
item only looks at what follows it to see whether an object begins there. So a
document of complete lines is tokenized the same way in front of any other item
(`tokenizeLoop_append`), which is what lets a line be put into a descriptor.
-/

namespace Dittor.Tor

open Dittor.Lib Dittor.Crypto Dittor.Dkg Dittor.Registration

/-! ## Rules -/

/-- `directory_keyword`: the keywords of router descriptors; those of the other tables are
numbered. -/
inductive DirectoryKeyword where
  | reject | accept | reject6 | accept6 | router | ipv6Policy | signingKey | onionKey
  | onionKeyNtor | routerSignature | published | uptime | fingerprint | hibernating | platform
  | proto | contact | readHistory | writeHistory | extraInfoDigest | hiddenServiceDir
  | identityEd25519 | masterKeyEd25519 | routerSigEd25519 | onionKeyCrosscert
  | ntorOnionKeyCrosscert | allowSingleHopExits | family | familyCert | cachesExtraInfo
  | orAddress | opt | bandwidth | dirTunnelled | optDittorProof
  /-- `A_PURPOSE`, `A_LAST_LISTED` and `A_UNKNOWN_` -/
  | purpose | lastListed | unknown
  | other (i : ℕ)
deriving DecidableEq, Repr

/-- Between `MIN_ANNOTATION` and `MAX_ANNOTATION`. -/
def DirectoryKeyword.amongAnnotations : DirectoryKeyword → Bool
  | .purpose | .lastListed | .unknown => true
  | _ => false

/-- `obj_syntax` -/
inductive ObjSyntax where
  | noObj | needObj | optKey1024 | needKey1024 | needKey | objOk
deriving DecidableEq, Repr

/-- `token_rule_t` -/
structure TokenRule where
  t : Bytes
  v : DirectoryKeyword
  minArgs : ℕ
  maxArgs : ℕ
  concatArgs : Bool
  os : ObjSyntax
  minCnt : ℕ
  maxCnt : ℕ
  atStart : Bool
  atEnd : Bool
deriving DecidableEq

/-- `INT_MAX` -/
def intMax : ℕ := 2147483647

/-- The number of arguments, as the macros of the table have it. -/
structure ArgSpec where
  min : ℕ
  max : ℕ
  concat : Bool

namespace ArgSpec

/-- `ARGS` -/
def args : ArgSpec := ⟨0, intMax, false⟩

/-- `NO_ARGS` -/
def noArgs : ArgSpec := ⟨0, 0, false⟩

/-- `CONCAT_ARGS` -/
def concatArgs : ArgSpec := ⟨1, 1, true⟩

/-- `GE(n)` -/
def ge (n : ℕ) : ArgSpec := ⟨n, intMax, false⟩

/-- `EQ(n)` -/
def eq (n : ℕ) : ArgSpec := ⟨n, n, false⟩

end ArgSpec

namespace TokenRule

/-- The rule behind each macro. -/
def ofSpec (minCnt maxCnt : ℕ) (atStart atEnd : Bool) (s : String) (v : DirectoryKeyword)
    (a : ArgSpec) (o : ObjSyntax) : TokenRule :=
  ⟨cstring s, v, a.min, a.max, a.concat, o, minCnt, maxCnt, atStart, atEnd⟩

/-- `T0N` -/
def t0N := ofSpec 0 intMax false false

/-- `T1` -/
def t1 := ofSpec 1 1 false false

/-- `T1_START` -/
def t1Start := ofSpec 1 1 true false

/-- `T1_END` -/
def t1End := ofSpec 1 1 false true

/-- `T01`, and `A01` for an annotation -/
def t01 := ofSpec 0 1 false false

end TokenRule

open ArgSpec TokenRule in
/-- `routerdesc_token_table` -/
def routerdescTokenTable : List TokenRule := [
  t0N "reject" .reject args .noObj,
  t0N "accept" .accept args .noObj,
  t0N "reject6" .reject6 args .noObj,
  t0N "accept6" .accept6 args .noObj,
  t1Start "router" .router (ge 5) .noObj,
  t01 "ipv6-policy" .ipv6Policy concatArgs .noObj,
  t1 "signing-key" .signingKey noArgs .needKey1024,
  t01 "onion-key" .onionKey noArgs .needKey1024,
  t1 "ntor-onion-key" .onionKeyNtor (ge 1) .noObj,
  t1End "router-signature" .routerSignature noArgs .needObj,
  t1 "published" .published concatArgs .noObj,
  t01 "uptime" .uptime (ge 1) .noObj,
  t01 "fingerprint" .fingerprint concatArgs .noObj,
  t01 "hibernating" .hibernating (ge 1) .noObj,
  t01 "platform" .platform concatArgs .noObj,
  t1 "proto" .proto concatArgs .noObj,
  t01 "contact" .contact concatArgs .noObj,
  t01 "read-history" .readHistory args .noObj,
  t01 "write-history" .writeHistory args .noObj,
  t01 "extra-info-digest" .extraInfoDigest (ge 1) .noObj,
  t01 "hidden-service-dir" .hiddenServiceDir noArgs .noObj,
  t1 "identity-ed25519" .identityEd25519 noArgs .needObj,
  t1 "master-key-ed25519" .masterKeyEd25519 (ge 1) .noObj,
  t1 "router-sig-ed25519" .routerSigEd25519 (ge 1) .noObj,
  t01 "onion-key-crosscert" .onionKeyCrosscert noArgs .needObj,
  t1 "ntor-onion-key-crosscert" .ntorOnionKeyCrosscert (eq 1) .needObj,
  t01 "allow-single-hop-exits" .allowSingleHopExits noArgs .noObj,
  t01 "family" .family args .noObj,
  t0N "family-cert" .familyCert args .needObj,
  t01 "caches-extra-info" .cachesExtraInfo noArgs .noObj,
  t0N "or-address" .orAddress (ge 1) .noObj,
  t0N "opt" .opt concatArgs .objOk,
  t1 "bandwidth" .bandwidth (ge 3) .noObj,
  t01 "@purpose" .purpose (ge 1) .noObj,
  t01 "tunnelled-dir-server" .dirTunnelled noArgs .noObj,
  t01 "dittor-proof" .optDittorProof (ge 8) .noObj]

/-! ## Tokens -/

/-- What is asked of a `crypto_pk_t`. -/
structure PublicKey where
  /-- `crypto_pk_num_bits` -/
  numBits : ℕ
  /-- `crypto_pk_key_is_private` -/
  isPrivate : Bool
deriving DecidableEq

/-- `crypto_pk_asn1_decode` of the cryptographic library. -/
abbrev KeyDecoder := Bytes → Option PublicKey

/-- The object of a token. -/
structure TokenObject where
  objectType : Bytes
  objectBody : Bytes
  key : Option PublicKey
deriving DecidableEq

/-- `directory_token_t` -/
structure DirectoryToken where
  tp : DirectoryKeyword
  args : List Bytes
  object : Option TokenObject := none
deriving DecidableEq

/-- `tok->key` -/
def DirectoryToken.key (tok : DirectoryToken) : Option PublicKey :=
  tok.object.bind TokenObject.key

/-- An error of `get_next_token`, in a buffer of 128 bytes. -/
def ebuf (text : String) (arg : Bytes) : Bytes := snprintf 128 (cstring text ++ arg)

section Check

variable (kwd : Bytes) (tok : DirectoryToken)

/-- The case `NEED_KEY`. -/
def checkKey : Except Bytes DirectoryToken :=
  match tok.key with
  | none => .error (ebuf "Missing public key for " kwd)
  | some key =>
    if key.isPrivate then
      .error (ebuf "Private key given for " (kwd ++ cstring ", which wants a public key"))
    else .ok tok

/-- The case `NEED_KEY_1024`, which goes on to `NEED_KEY`. -/
def checkKey1024 : Except Bytes DirectoryToken :=
  match tok.key with
  | none => checkKey kwd tok
  | some key =>
    if key.numBits ≠ 1024 then
      .error (ebuf "Wrong size on key for "
        (kwd ++ cstring ": " ++ cstring (toString key.numBits) ++ cstring " bits"))
    else checkKey kwd tok

/-- `token_check_object` -/
def tokenCheckObject : ObjSyntax → Except Bytes DirectoryToken
  | .noObj =>
    -- a key only comes with a body
    if tok.object.isSome then .error (ebuf "Unexpected object for " kwd)
    else .ok tok
  | .needObj => if tok.object.isNone then .error (ebuf "Missing object for " kwd) else .ok tok
  | .optKey1024 =>
    if tok.object.isSome ∧ tok.key.isNone then .error (ebuf "Unexpected object for " kwd)
    else if tok.key.isNone then .ok tok
    else checkKey1024 kwd tok
  | .needKey1024 => checkKey1024 kwd tok
  | .needKey => checkKey kwd tok
  | .objOk => .ok tok

end Check

/-! ## One item -/

section Item

/-- From a position to the end of its line. -/
def lineOf (s : Bytes) : Bytes := s.takeWhile fun b => b ≠ byte '\n'

/-- What follows the line, from its newline on. -/
def afterLine (s : Bytes) : Bytes := s.dropWhile fun b => b ≠ byte '\n'

/-- Up to where `find_whitespace_eos` stops. -/
def firstWord (line : Bytes) : Bytes := line.takeWhile fun b => !isWhitespace b

/-- From there on. -/
def afterWord (line : Bytes) : Bytes := line.dropWhile fun b => !isWhitespace b

/-- `eat_whitespace_eos_no_nl` -/
def eatBlanks (line : Bytes) : Bytes :=
  line.dropWhile fun b => b = byte ' ' || b = byte '\t' || b = byte '\r'

/-- `MAX_LINE_LENGTH` and `MAX_UNPARSED_OBJECT_SIZE` -/
def maxLineLength : ℕ := 128 * 1024

/-- The line behind an `opt` at its start. -/
def skipOpt (line : Bytes) : Bytes :=
  if firstWord line = cstring "opt" then eatBlanks (afterWord line) else line

/-- The arguments that a rule takes from the rest of the line. -/
def ruleArguments (r : TokenRule) (rest : Bytes) : Except Bytes (List Bytes) :=
  if r.concatArgs then .ok [rest]
  else
    match getTokenArguments rest with
    | none => .error (ebuf "Far too many arguments to " r.t)
    | some args => .ok args

/-- `table[i]` for the keyword of the line, with its arguments. -/
def ruleToken (r : TokenRule) (line : Bytes) : Except Bytes DirectoryToken := do
  let args ← ruleArguments r (eatBlanks (afterWord line))
  if args.length < r.minArgs then .error (ebuf "Too few arguments to " r.t)
  else if r.maxArgs < args.length then .error (ebuf "Too many arguments to " r.t)
  else .ok { tp := r.v, args := args }

/-- A line with no keyword of the table. -/
def unknownToken (line : Bytes) : DirectoryToken where
  tp := if line.head? = some (byte '@') then .unknown else .opt
  args := [line]

/-- The token of a keyword line, the text of its keyword and what object it may have. -/
def lineToken (table : List TokenRule) (line : Bytes) :
    Except Bytes (DirectoryToken × Bytes × ObjSyntax) :=
  match table.find? fun r => r.t = firstWord line with
  | some r => (ruleToken r line).map fun tok => (tok, r.t, r.os)
  | none => .ok (unknownToken line, [], .objOk)

/-- `tor_memstr`: what stands before the first occurrence, and from it on. -/
def memstr (needle : Bytes) : Bytes → Option (Bytes × Bytes)
  | [] => none
  | b :: bs =>
    if needle.isPrefixOf (b :: bs) then some ([], b :: bs)
    else (memstr needle bs).map fun r => (b :: r.1, r.2)

/-- Whether an object begins here, on a line that is complete. -/
def beginsObject (s : Bytes) : Bool :=
  byte '\n' ∈ s && 11 ≤ (lineOf s).length && (cstring "-----BEGIN ").isPrefixOf s

/-- `base64_decode_table` on a byte that carries six bits. -/
def base64Value (b : UInt8) : Option ℕ :=
  if byte 'A' ≤ b && b ≤ byte 'Z' then some (b.toNat - 65)
  else if byte 'a' ≤ b && b ≤ byte 'z' then some (b.toNat - 71)
  else if byte '0' ≤ b && b ≤ byte '9' then some (b.toNat + 4)
  else if b = byte '+' then some 62
  else if b = byte '/' then some 63
  else none

/-- The bytes in the bits that are left over; six alone are invalid. -/
def base64Rest (n : ℕ) : ℕ → Option Bytes
  | 1 => none
  | 2 => some [UInt8.ofNat (n / 16)]
  | 3 => some [UInt8.ofNat (n / 1024), UInt8.ofNat (n / 4)]
  | _ => some []

/-- The loop of `base64_decode`, with `count` values collected in `n`. The destination has
`base64_decode_maxsize` bytes, which is enough. -/
def base64Loop (n count : ℕ) : Bytes → Option Bytes
  | [] => base64Rest n count
  | b :: bs =>
    if b = byte '=' then base64Rest n count
    else if b = byte ' ' || b = byte '\t' || b = byte '\n' || b = 11 || b = byte '\r' then
      base64Loop n count bs
    else
      match base64Value b with
      | none => none
      | some v =>
        if count = 3 then
          (base64Loop 0 0 bs).map fun out =>
            UInt8.ofNat ((n * 64 + v) / 65536) :: UInt8.ofNat ((n * 64 + v) / 256)
              :: UInt8.ofNat (n * 64 + v) :: out
        else base64Loop (n * 64 + v) (count + 1) bs

/-- `base64_decode` -/
def base64Decode (src : Bytes) : Option Bytes := base64Loop 0 0 src

variable (D : KeyDecoder)

/-- The key in an object of type `RSA PUBLIC KEY`. -/
def objectKey (os : ObjSyntax) (objectType body : Bytes) : Except Bytes (Option PublicKey) :=
  if objectType = cstring "RSA PUBLIC KEY" then
    if os = .noObj ∨ os = .needObj then .error (cstring "Unexpected public key.")
    else
      match D body with
      | none => .error (cstring "Couldn't parse public key.")
      | some key => .ok (some key)
  else .ok none

/-- A line that begins an object: a name of one byte or more between the dashes. -/
def beginOk (line : Bytes) : Bool :=
  16 < line.length && 0 ∉ (line.drop 11).take (line.length - 16)
    && (cstring "-----").isSuffixOf line && line.length ≤ maxLineLength

/-- The name on it. -/
def objectTypeOf (line : Bytes) : Bytes := (line.drop 11).take (line.length - 16)

/-- The object that begins at `s`, and what follows its end line. -/
def readObject (os : ObjSyntax) (s : Bytes) : Except Bytes (TokenObject × Bytes) :=
  if beginOk (lineOf s) = false then .error (cstring "Malformed object: bad begin line")
  else
    let objectType := objectTypeOf (lineOf s)
    match memstr (cstring "-----END ") ((afterLine s).drop 1) with
    | none => .error (cstring "Malformed object: missing object end line")
    | some (text, next) =>
      if lineOf next ≠ cstring "-----END " ++ objectType ++ cstring "-----" then
        .error (ebuf "Malformed object: mismatched end tag " objectType)
      else if maxLineLength < text.length then
        .error (cstring "Couldn't parse object: missing footer or object much too big.")
      else
        match base64Decode text with
        | none => .error (cstring "Malformed object: bad base64-encoded data")
        | some body =>
          (objectKey D os objectType body).map fun key => (⟨objectType, body, key⟩, afterLine next)

/-- The object behind a line, if there is one: `s` is where the whitespace behind it ends. -/
def optObject (os : ObjSyntax) (s : Bytes) : Except Bytes (Option TokenObject × Bytes) :=
  if beginsObject s then (readObject D os s).map fun o => (some o.1, o.2) else .ok (none, s)

/-- `get_next_token`: the token and where the document goes on. -/
def getNextToken (table : List TokenRule) (start : Bytes) :
    Except Bytes (DirectoryToken × Bytes) := do
  let s := eatWhitespace false start
  if maxLineLength < (lineOf s).length then .error (cstring "Line far too long")
  else if s = [] then .error (cstring "Unexpected EOF")
  else
    let (tok, kwd, os) ← lineToken table (skipOpt (lineOf s))
    let (object, rest) ← optObject D os (eatWhitespace false (afterLine s))
    let tok ← tokenCheckObject kwd { tok with object := object } os
    return (tok, rest)

end Item

/-! ## What an accepted item looks like -/

section Accepted

theorem except_bind_eq_ok {ε α β : Type} {x : Except ε α} {f : α → Except ε β} {r : β} :
    (x >>= f) = .ok r ↔ ∃ a, x = .ok a ∧ f a = .ok r := by
  cases x with
  | error e => exact ⟨fun h => absurd h (by simp [bind, Except.bind]), fun ⟨_, h, _⟩ => by cases h⟩
  | ok a => exact ⟨fun h => ⟨a, rfl, h⟩, fun ⟨_, h, hf⟩ => by cases h; exact hf⟩

theorem except_map_eq_ok {ε α β : Type} {x : Except ε α} {f : α → β} {r : β} :
    x.map f = .ok r ↔ ∃ a, x = .ok a ∧ f a = r := by
  cases x with
  | error e => simp [Except.map]
  | ok a => simp [Except.map]

theorem ruleArguments_iff {r : TokenRule} (hargs : r.concatArgs = false) {rest : Bytes}
    {args : List Bytes} : ruleArguments r rest = .ok args ↔ getTokenArguments rest = some args := by
  unfold ruleArguments
  rw [hargs, if_neg (by decide)]
  cases getTokenArguments rest with
  | none => simp
  | some args' => simp

theorem ruleToken_iff {r : TokenRule} {line : Bytes} {tok : DirectoryToken} :
    ruleToken r line = .ok tok ↔ ∃ args,
      ruleArguments r (eatBlanks (afterWord line)) = .ok args ∧ r.minArgs ≤ args.length
        ∧ args.length ≤ r.maxArgs ∧ tok = { tp := r.v, args := args } := by
  unfold ruleToken
  rw [except_bind_eq_ok]
  constructor
  · rintro ⟨args, hrule, h⟩
    split at h
    next => cases h
    next hmin =>
      split at h
      next => cases h
      next hmax => exact ⟨args, hrule, not_lt.mp hmin, not_lt.mp hmax, (Except.ok.inj h).symm⟩
  · rintro ⟨args, hrule, hmin, hmax, rfl⟩
    refine ⟨args, hrule, ?_⟩
    rw [if_neg (not_lt.mpr hmin), if_neg (not_lt.mpr hmax)]

variable {D : KeyDecoder} {os : ObjSyntax}

theorem readObject_iff {s r : Bytes} {o : TokenObject} :
    readObject D os s = .ok (o, r) ↔
      beginOk (lineOf s) = true ∧ o.objectType = objectTypeOf (lineOf s) ∧ ∃ text next,
        memstr (cstring "-----END ") ((afterLine s).drop 1) = some (text, next)
          ∧ lineOf next = cstring "-----END " ++ o.objectType ++ cstring "-----"
          ∧ text.length ≤ maxLineLength ∧ base64Decode text = some o.objectBody
          ∧ objectKey D os o.objectType o.objectBody = .ok o.key ∧ r = afterLine next := by
  unfold readObject
  constructor
  · intro h
    split at h
    next => cases h
    next hbegin =>
      -- the checks in the order of the source, each error left behind
      refine ⟨Bool.not_eq_false _ ▸ hbegin, ?_⟩
      dsimp only at h
      split at h
      next => cases h
      next text next hmem =>
        split at h
        next => cases h
        next hend =>
          split at h
          next => cases h
          next hlen =>
            split at h
            next => cases h
            next body hbody =>
              obtain ⟨key, hkey, heq⟩ := except_map_eq_ok.mp h
              obtain ⟨rfl, rfl⟩ := Prod.mk.inj heq
              exact ⟨rfl, text, next, hmem, not_not.mp hend, not_lt.mp hlen, hbody, hkey, rfl⟩
  · rintro ⟨hbegin, htype, text, next, hmem, hend, hlen, hbody, hkey, rfl⟩
    -- the same checks from the other side
    rw [htype] at hend hkey
    rw [if_neg (by rw [hbegin]; decide)]
    dsimp only
    rw [hmem]
    dsimp only
    rw [if_neg (not_not.mpr hend), if_neg (not_lt.mpr hlen), hbody]
    dsimp only
    rw [hkey, ← htype]
    rfl

theorem optObject_iff {s r : Bytes} {object : Option TokenObject} :
    optObject D os s = .ok (object, r) ↔
      (beginsObject s = false ∧ object = none ∧ r = s)
        ∨ (beginsObject s = true ∧ ∃ o, object = some o ∧ readObject D os s = .ok (o, r)) := by
  unfold optObject
  cases hbegin : beginsObject s with
  | false =>
    rw [if_neg (by decide)]
    constructor
    · intro h
      obtain ⟨rfl, rfl⟩ := Prod.mk.inj (Except.ok.inj h)
      exact .inl ⟨rfl, rfl, rfl⟩
    · rintro (⟨-, rfl, rfl⟩ | ⟨h, -⟩)
      · rfl
      · cases h
  | true =>
    rw [if_pos rfl, except_map_eq_ok]
    constructor
    · rintro ⟨⟨o, r'⟩, hread, heq⟩
      obtain ⟨rfl, rfl⟩ := Prod.mk.inj heq
      exact .inr ⟨rfl, o, rfl, hread⟩
    · rintro (⟨h, -⟩ | ⟨-, o, rfl, hread⟩)
      · cases h
      · exact ⟨(o, r), hread, rfl⟩

/-- The parts of an accepted item; `s` is where it begins. -/
theorem getNextToken_iff {table : List TokenRule} {start r : Bytes} {tok : DirectoryToken} :
    getNextToken D table start = .ok (tok, r) ↔
      (lineOf (eatWhitespace false start)).length ≤ maxLineLength ∧ eatWhitespace false start ≠ []
        ∧ ∃ item kwd os object,
          lineToken table (skipOpt (lineOf (eatWhitespace false start))) = .ok (item, kwd, os)
            ∧ optObject D os (eatWhitespace false (afterLine (eatWhitespace false start)))
              = .ok (object, r)
            ∧ tokenCheckObject kwd { item with object := object } os = .ok tok := by
  unfold getNextToken
  dsimp only
  constructor
  · intro h
    split at h
    next => cases h
    next hlen =>
      split at h
      next => cases h
      next hne =>
        -- line, object, check of the object
        obtain ⟨⟨item, kwd, os⟩, hline, h⟩ := except_bind_eq_ok.mp h
        obtain ⟨⟨object, rest⟩, hobj, h⟩ := except_bind_eq_ok.mp h
        obtain ⟨tok', hcheck, h⟩ := except_bind_eq_ok.mp h
        obtain ⟨rfl, rfl⟩ := Prod.mk.inj (Except.ok.inj h)
        exact ⟨not_lt.mp hlen, hne, item, kwd, os, object, hline, hobj, hcheck⟩
  · rintro ⟨hlen, hne, item, kwd, os, object, hline, hobj, hcheck⟩
    rw [if_neg (not_lt.mpr hlen), if_neg hne, except_bind_eq_ok]
    refine ⟨_, hline, except_bind_eq_ok.mpr ⟨_, hobj, except_bind_eq_ok.mpr ⟨_, hcheck, rfl⟩⟩⟩

end Accepted

/-! ## Every item takes something -/

section Progress

theorem length_dropWhile_le (f : UInt8 → Bool) (s : Bytes) : (s.dropWhile f).length ≤ s.length :=
  (List.dropWhile_suffix f).length_le

/-- What is left behind the whitespace begins with neither whitespace nor a comment. -/
theorem eatWhitespace_head {c : Bool} {s : Bytes} {b : UInt8} {bs : Bytes}
    (h : eatWhitespace c s = b :: bs) : b ≠ byte '\n' ∧ eatWhitespace false (b :: bs) = b :: bs := by
  induction s generalizing c with
  | nil => cases c <;> exact absurd h (by simp [eatWhitespace])
  | cons x xs ih =>
    cases c with
    | true =>
      rw [eatWhitespace] at h
      split at h
      · exact ih h
      · exact ih h
    | false =>
      rw [eatWhitespace] at h
      split at h
      next => exact ih h
      next hblank =>
        split at h
        next => exact ih h
        next hhash =>
          -- the first byte that is neither blank nor the start of a comment
          obtain ⟨rfl, rfl⟩ := List.cons.inj h
          refine ⟨?_, ?_⟩
          · rintro rfl
            exact hblank (by decide)
          · rw [eatWhitespace, if_neg hblank, if_neg hhash]

theorem length_afterLine_lt {b : UInt8} (h : b ≠ byte '\n') (bs : Bytes) :
    (afterLine (b :: bs)).length < (b :: bs).length := by
  unfold afterLine
  rw [List.dropWhile_cons_of_pos (by simpa using h), List.length_cons]
  exact Nat.lt_succ_of_le (length_dropWhile_le _ bs)

theorem memstr_spec {needle s text next : Bytes} (h : memstr needle s = some (text, next)) :
    s = text ++ next ∧ needle <+: next := by
  induction s generalizing text with
  | nil => exact absurd h (by simp [memstr])
  | cons b bs ih =>
    rw [memstr] at h
    split at h
    next hpre =>
      obtain ⟨rfl, rfl⟩ := Prod.mk.inj (Option.some.inj h)
      exact ⟨rfl, List.isPrefixOf_iff_prefix.mp hpre⟩
    next =>
      obtain ⟨⟨text', next'⟩, hr, heq⟩ := Option.map_eq_some_iff.mp h
      obtain ⟨rfl, rfl⟩ := Prod.mk.inj heq
      exact ⟨congrArg (List.cons b) (ih hr).1, (ih hr).2⟩

theorem memstr_suffix {needle s text next : Bytes} (h : memstr needle s = some (text, next)) :
    next <:+ s := by
  rw [(memstr_spec h).1]
  exact List.suffix_append text next

variable {D : KeyDecoder} {table : List TokenRule}

theorem afterLine_suffix (s : Bytes) : afterLine s <:+ s := List.dropWhile_suffix _

/-- Behind the object, or where it would have begun. -/
theorem optObject_suffix {os : ObjSyntax} {s r : Bytes} {object : Option TokenObject}
    (h : optObject D os s = .ok (object, r)) : r <:+ s := by
  rcases optObject_iff.mp h with ⟨-, -, rfl⟩ | ⟨-, o, -, hread⟩
  · exact List.suffix_refl _
  · obtain ⟨-, -, text, next, hmem, -, -, -, -, rfl⟩ := readObject_iff.mp hread
    exact (afterLine_suffix next).trans ((memstr_suffix hmem).trans
      ((List.drop_suffix 1 _).trans (afterLine_suffix s)))

/-- **Progress.** -/
theorem getNextToken_length {start r : Bytes} {tok : DirectoryToken}
    (h : getNextToken D table start = .ok (tok, r)) : r.length < start.length := by
  obtain ⟨-, hne, item, kwd, os, object, -, hobj, -⟩ := getNextToken_iff.mp h
  obtain ⟨b, bs, hs⟩ := List.exists_cons_of_ne_nil hne
  have hstart := eatWhitespace_length false start
  have hline := length_afterLine_lt (eatWhitespace_head hs).1 bs
  have hrest := eatWhitespace_length false (afterLine (eatWhitespace false start))
  have hobject := (optObject_suffix hobj).length_le
  rw [hs] at hstart hrest hobject
  omega

end Progress

/-! ## The document -/

section Document

variable (D : KeyDecoder) (table : List TokenRule)

/-- The loop of `tokenize_string`. -/
def tokenizeLoop (s : Bytes) : Except Bytes (List DirectoryToken) :=
  if s = [] then .ok []
  else
    match _h : getNextToken D table s with
    | .error e => .error e
    | .ok (tok, rest) => (tokenizeLoop (eatWhitespace false rest)).map fun toks => tok :: toks
termination_by s.length
decreasing_by
  have h1 := getNextToken_length _h
  have h2 := eatWhitespace_length false rest
  omega

/-- `flags` -/
structure TokenizeFlags where
  annotationsOk : Bool := false
  noCheck : Bool := false
  noNewAnnotations : Bool := false

/-- `first_nonannotation`, after the checks on annotations. Of the tokens only their
keywords are read; `prevLen` of them were there before. -/
def firstNonannotation (flags : TokenizeFlags) (prevLen : ℕ) (out : List DirectoryKeyword) :
    Except Bytes ℕ :=
  if flags.annotationsOk then
    match out.findIdx? fun tp => !tp.amongAnnotations with
    | none => .error (cstring "parse error: item contains only annotations")
    | some first =>
      if (out.drop first).any DirectoryKeyword.amongAnnotations then
        .error (cstring "parse error: Annotations mixed with keywords")
      else if flags.noNewAnnotations ∧ first ≠ prevLen then
        .error (cstring "parse error: Unexpected annotations.")
      else .ok first
  else if out.any DirectoryKeyword.amongAnnotations then
    .error (cstring "parse error: no annotations allowed.")
  else .ok 0

/-- The checks of one rule. -/
def checkRule (first : ℕ) (out : List DirectoryKeyword) (r : TokenRule) : Except Bytes Unit :=
  if out.count r.v < r.minCnt then
    .error (cstring "Parse error: missing " ++ r.t ++ cstring " element.")
  else if r.maxCnt < out.count r.v then
    .error (cstring "Parse error: too many " ++ r.t ++ cstring " elements.")
  else if r.atStart ∧ out[first]? ≠ some r.v then
    .error (cstring "Parse error: first item is not " ++ r.t ++ cstring ".")
  else if r.atEnd ∧ out.getLast? ≠ some r.v then
    .error (cstring "Parse error: last item is not " ++ r.t ++ cstring ".")
  else .ok ()

/-- The checks behind the loop. -/
def checkTokens (flags : TokenizeFlags) (prevLen : ℕ) (out : List DirectoryKeyword) :
    Except Bytes Unit :=
  if flags.noCheck then .ok ()
  else do
    let first ← firstNonannotation flags prevLen out
    table.forM (checkRule first out)

/-- `tokenize_string`: the tokens in `out` and those of the document. -/
def tokenizeString (flags : TokenizeFlags) (out : List DirectoryToken) (s : Bytes) :
    Except Bytes (List DirectoryToken) :=
  if 0 ∈ s then .error (cstring "parse error: internal NUL character.")
  else do
    let toks ← tokenizeLoop D table s
    checkTokens table flags out.length ((out ++ toks).map DirectoryToken.tp)
    return out ++ toks

/-- `find_opt_by_keyword` -/
def findOptByKeyword (s : List DirectoryToken) (keyword : DirectoryKeyword) :
    Option DirectoryToken :=
  s.find? fun tok => tok.tp = keyword

end Document

/-! ## Complete lines in front of another item -/

section Append

variable {D : KeyDecoder} {table : List TokenRule} {s rest : Bytes}

/-- The last line is complete. -/
def EndsLine (s : Bytes) : Prop := ∀ b ∈ s.getLast?, b = byte '\n'

theorem endsLine_newline (s : Bytes) : EndsLine (s ++ [byte '\n']) := by
  intro b hb
  rw [List.getLast?_append_of_ne_nil _ (by simp)] at hb
  exact (Option.some.inj hb).symm

theorem EndsLine.suffix {t : Bytes} (h : EndsLine s) (hsuf : t <:+ s) : EndsLine t := by
  obtain ⟨u, rfl⟩ := hsuf
  intro b hb
  cases t with
  | nil => exact absurd hb (by simp)
  | cons x xs =>
    apply h b
    rw [List.getLast?_append_of_ne_nil _ (by simp)]
    exact hb

theorem EndsLine.newline_mem (h : EndsLine s) (hne : s ≠ []) : byte '\n' ∈ s := by
  have hlast := h _ (List.getLast?_eq_getLast_of_ne_nil hne)
  rw [← hlast]
  exact List.getLast_mem hne

/-- The first newline ends the line. -/
theorem line_cut {line : Bytes} (h : byte '\n' ∉ line) (rest : Bytes) :
    lineOf (line ++ byte '\n' :: rest) = line
      ∧ afterLine (line ++ byte '\n' :: rest) = byte '\n' :: rest := by
  have hall : ∀ b ∈ line, decide (b ≠ byte '\n') = true := by
    intro b hb
    rw [decide_eq_true_iff]
    rintro rfl
    exact h hb
  unfold lineOf afterLine
  rw [List.takeWhile_append_of_pos hall, List.dropWhile_append_of_pos hall,
    List.takeWhile_cons_of_neg (by decide), List.dropWhile_cons_of_neg (by decide),
    List.append_nil]
  exact ⟨rfl, rfl⟩

theorem line_append (h : byte '\n' ∈ s) (rest : Bytes) :
    lineOf (s ++ rest) = lineOf s ∧ afterLine (s ++ rest) = afterLine s ++ rest
      ∧ afterLine s ≠ [] := by
  obtain ⟨line, post, rfl, hline⟩ := List.eq_append_cons_of_mem h
  rw [List.append_assoc, List.cons_append, (line_cut hline _).1, (line_cut hline _).2,
    (line_cut hline _).1, (line_cut hline _).2]
  exact ⟨rfl, rfl, by simp⟩

theorem eatWhitespace_suffix (c : Bool) (s : Bytes) : eatWhitespace c s <:+ s := by
  induction s generalizing c with
  | nil => cases c <;> exact List.suffix_refl _
  | cons b bs ih =>
    have htail : bs <:+ b :: bs := List.suffix_cons b bs
    cases c with
    | true =>
      rw [eatWhitespace]
      split
      · exact (ih false).trans htail
      · exact (ih true).trans htail
    | false =>
      rw [eatWhitespace]
      split
      · exact (ih false).trans htail
      · split
        · exact (ih true).trans htail
        · exact List.suffix_refl _

/-- Behind complete lines there is no comment left open. -/
theorem eatWhitespace_append (rest : Bytes) {c : Bool} (hopen : c = true → s ≠ [])
    (hs : EndsLine s) :
    eatWhitespace c (s ++ rest)
      = if eatWhitespace c s = [] then eatWhitespace false rest else eatWhitespace c s ++ rest := by
  induction s generalizing c with
  | nil =>
    cases c with
    -- inside a comment there is still a newline to come
    | true => exact absurd rfl (hopen rfl)
    | false => rfl
  | cons b bs ih =>
    have htail : EndsLine bs := hs.suffix (List.suffix_cons b bs)
    -- a byte that is not a newline is not the last one
    have hmore : b ≠ byte '\n' → bs ≠ [] := by
      rintro hb rfl
      exact hb (hs b rfl)
    cases c with
    | true =>
      rw [List.cons_append, eatWhitespace, eatWhitespace]
      split
      next => exact ih (by simp) htail
      next hb => exact ih (fun _ => hmore hb) htail
    | false =>
      rw [List.cons_append, eatWhitespace, eatWhitespace]
      split
      next => exact ih (by simp) htail
      next hblank =>
        split
        next hhash =>
          refine ih (fun _ => hmore ?_) htail
          rw [hhash]
          decide
        next => rfl

theorem prefix_append_iff {needle : Bytes} (h : needle.length ≤ s.length) (rest : Bytes) :
    needle <+: s ++ rest ↔ needle <+: s :=
  ⟨fun hpre => List.prefix_of_prefix_length_le hpre (List.prefix_append s rest) h,
    fun hpre => hpre.trans (List.prefix_append s rest)⟩

theorem memstr_append {needle text next : Bytes} (h : memstr needle s = some (text, next))
    (rest : Bytes) : memstr needle (s ++ rest) = some (text, next ++ rest) := by
  induction s generalizing text with
  | nil => exact absurd h (by simp [memstr])
  | cons b bs ih =>
    obtain ⟨hsplit, hneedle⟩ := memstr_spec h
    have hlen : needle.length ≤ (b :: bs).length := by
      rw [hsplit, List.length_append]
      exact le_trans hneedle.length_le (Nat.le_add_left _ _)
    have hiff := prefix_append_iff hlen rest
    rw [memstr] at h
    rw [List.cons_append, memstr]
    rw [List.cons_append, ← List.isPrefixOf_iff_prefix, ← List.isPrefixOf_iff_prefix] at hiff
    split at h
    next hpre =>
      obtain ⟨rfl, rfl⟩ := Prod.mk.inj (Option.some.inj h)
      rw [if_pos (hiff.mpr hpre)]
      rfl
    next hpre =>
      obtain ⟨⟨text', next'⟩, hr, heq⟩ := Option.map_eq_some_iff.mp h
      obtain ⟨rfl, rfl⟩ := Prod.mk.inj heq
      rw [if_neg fun hp => hpre (hiff.mp hp), ih hr]
      rfl

theorem beginsObject_append (hs : EndsLine s) (hne : s ≠ []) (rest : Bytes) :
    beginsObject (s ++ rest) = beginsObject s := by
  have hmem := hs.newline_mem hne
  unfold beginsObject
  rw [(line_append hmem rest).1]
  by_cases hlen : 11 ≤ (lineOf s).length
  · have hlong : (cstring "-----BEGIN ").length ≤ s.length :=
      le_trans hlen (List.takeWhile_prefix _).length_le
    have hpre : (cstring "-----BEGIN ").isPrefixOf (s ++ rest)
        = (cstring "-----BEGIN ").isPrefixOf s := by
      rw [Bool.eq_iff_iff, List.isPrefixOf_iff_prefix, List.isPrefixOf_iff_prefix]
      exact prefix_append_iff hlong rest
    rw [hpre, decide_eq_true (List.mem_append_left rest hmem), decide_eq_true hmem]
  · rw [decide_eq_false hlen, Bool.and_false, Bool.and_false, Bool.false_and, Bool.false_and]

theorem readObject_append {os : ObjSyntax} {o : TokenObject} {r : Bytes} (hs : EndsLine s)
    (hne : s ≠ []) (h : readObject D os s = .ok (o, r)) (rest : Bytes) :
    readObject D os (s ++ rest) = .ok (o, r ++ rest) := by
  obtain ⟨hline, hafter, hmore⟩ := line_append (hs.newline_mem hne) rest
  obtain ⟨hbegin, htype, text, next, hmem, hend, hlen, hbody, hkey, rfl⟩ := readObject_iff.mp h
  have hdrop : (afterLine (s ++ rest)).drop 1 = (afterLine s).drop 1 ++ rest := by
    rw [hafter]
    exact List.drop_append_of_le_length (List.length_pos_iff.mpr hmore)
  -- the end line is complete as well
  have hnext : next <:+ s :=
    (memstr_suffix hmem).trans ((List.drop_suffix 1 _).trans (afterLine_suffix s))
  have hnextne : next ≠ [] := by
    rintro rfl
    have hlit := (memstr_spec hmem).2.length_le
    exact absurd hlit (by decide)
  obtain ⟨hnline, hnafter, -⟩ := line_append ((hs.suffix hnext).newline_mem hnextne) rest
  rw [readObject_iff, hline, hdrop]
  exact ⟨hbegin, htype, text, next ++ rest, memstr_append hmem rest, by rw [hnline, hend], hlen,
    hbody, hkey, hnafter.symm⟩

/-- An item of complete lines is the same in front of another item. -/
theorem getNextToken_append {tok : DirectoryToken} {r : Bytes} (hs : EndsLine s)
    (hrest : eatWhitespace false rest = rest) (hbegin : beginsObject rest = false)
    (h : getNextToken D table s = .ok (tok, r)) :
    EndsLine r ∧ ∃ r', getNextToken D table (s ++ rest) = .ok (tok, r')
      ∧ eatWhitespace false r' = eatWhitespace false r ++ rest := by
  obtain ⟨hlen, hne, item, kwd, os, object, hline, hobj, hcheck⟩ := getNextToken_iff.mp h
  have hs' : EndsLine (eatWhitespace false s) := hs.suffix (eatWhitespace_suffix false s)
  obtain ⟨hsame, hafter, -⟩ := line_append (hs'.newline_mem hne) rest
  have heat : eatWhitespace false (s ++ rest) = eatWhitespace false s ++ rest := by
    rw [eatWhitespace_append rest (by simp) hs, if_neg hne]
  have hw : EndsLine (eatWhitespace false (afterLine (eatWhitespace false s))) :=
    (hs'.suffix (afterLine_suffix _)).suffix (eatWhitespace_suffix false _)
  have hr : EndsLine r := hw.suffix (optObject_suffix hobj)
  -- what is left of `r` when another item follows
  have hleft : ∀ t : Bytes, EndsLine t →
      eatWhitespace false (t ++ rest) = eatWhitespace false t ++ rest := by
    intro t ht
    rw [eatWhitespace_append rest (by simp) ht]
    split
    next hnil => rw [hnil, hrest, List.nil_append]
    next => rfl
  have hobj' : ∃ r', optObject D os (eatWhitespace false (afterLine (eatWhitespace false s)) ++ rest)
      = .ok (object, r') ∧ eatWhitespace false r' = eatWhitespace false r ++ rest := by
    by_cases hnil : eatWhitespace false (afterLine (eatWhitespace false s)) = []
    -- the item is the last one, and `rest` does not begin an object
    · rw [hnil] at hobj ⊢
      obtain ⟨rfl, rfl⟩ := Prod.mk.inj (Except.ok.inj (show Except.ok (none, []) = _ from hobj))
      exact ⟨rest, optObject_iff.mpr (.inl ⟨hbegin, rfl, rfl⟩), by rw [hrest]; rfl⟩
    -- another item or an object follows already
    · have hsameBegin := beginsObject_append hw hnil rest
      rcases optObject_iff.mp hobj with ⟨hno, rfl, rfl⟩ | ⟨hyes, o, rfl, hread⟩
      · exact ⟨_, optObject_iff.mpr (.inl ⟨hsameBegin.trans hno, rfl, rfl⟩), hleft _ hw⟩
      · exact ⟨r ++ rest, optObject_iff.mpr (.inr ⟨hsameBegin.trans hyes, o, rfl,
          readObject_append hw hnil hread rest⟩), hleft r hr⟩
  obtain ⟨r', hobj', hr'⟩ := hobj'
  refine ⟨hr, r', ?_, hr'⟩
  rw [getNextToken_iff, heat, hsame, hafter, hleft _ (hs'.suffix (afterLine_suffix _))]
  exact ⟨hlen, by simp [hne], item, kwd, os, object, hline, hobj', hcheck⟩

theorem getNextToken_suffix {tok : DirectoryToken} {r : Bytes}
    (h : getNextToken D table s = .ok (tok, r)) : r <:+ s := by
  obtain ⟨-, -, item, kwd, os, object, -, hobj, -⟩ := getNextToken_iff.mp h
  exact (optObject_suffix hobj).trans ((eatWhitespace_suffix false _).trans
    ((afterLine_suffix _).trans (eatWhitespace_suffix false s)))

theorem tokenizeLoop_of_ok {tok : DirectoryToken} {r : Bytes}
    (h : getNextToken D table s = .ok (tok, r)) :
    tokenizeLoop D table s
      = (tokenizeLoop D table (eatWhitespace false r)).map fun toks => tok :: toks := by
  have hne : s ≠ [] := by
    rintro rfl
    exact absurd (getNextToken_length h) (Nat.not_lt_zero _)
  rw [tokenizeLoop, if_neg hne]
  split
  next e he =>
    rw [h] at he
    cases he
  next tok' r' he =>
    rw [h] at he
    obtain ⟨rfl, rfl⟩ := Prod.mk.inj (Except.ok.inj he)
    rfl

/-- An accepted document is empty or begins with an item. -/
theorem tokenizeLoop_cases {toks : List DirectoryToken} (h : tokenizeLoop D table s = .ok toks) :
    (s = [] ∧ toks = []) ∨ ∃ tok r toks', getNextToken D table s = .ok (tok, r)
      ∧ tokenizeLoop D table (eatWhitespace false r) = .ok toks' ∧ toks = tok :: toks' := by
  by_cases hne : s = []
  · rw [tokenizeLoop, if_pos hne] at h
    exact .inl ⟨hne, (Except.ok.inj h).symm⟩
  · cases hnext : getNextToken D table s with
    | error e =>
      rw [tokenizeLoop, if_neg hne] at h
      split at h
      next => cases h
      next he =>
        rw [hnext] at he
        cases he
    | ok o =>
      obtain ⟨tok, r⟩ := o
      rw [tokenizeLoop_of_ok hnext] at h
      obtain ⟨toks', htoks, heq⟩ := except_map_eq_ok.mp h
      exact .inr ⟨tok, r, toks', rfl, htoks, heq.symm⟩

/-- The last item of a document. -/
theorem tokenizeLoop_last {tok : DirectoryToken} {r : Bytes}
    (h : getNextToken D table s = .ok (tok, r)) (hr : eatWhitespace false r = []) :
    tokenizeLoop D table s = .ok [tok] := by
  rw [tokenizeLoop_of_ok h, hr, tokenizeLoop]
  rfl

/-- **Complete lines are tokenized the same way in front of another item.** -/
theorem tokenizeLoop_append (hrest : eatWhitespace false rest = rest)
    (hbegin : beginsObject rest = false) {s : Bytes} {toks more : List DirectoryToken}
    (hs : EndsLine s) (h : tokenizeLoop D table s = .ok toks)
    (hmore : tokenizeLoop D table rest = .ok more) :
    tokenizeLoop D table (s ++ rest) = .ok (toks ++ more) := by
  induction hn : s.length using Nat.strong_induction_on generalizing s toks with
  | _ n ih =>
    rcases tokenizeLoop_cases h with ⟨rfl, rfl⟩ | ⟨tok, r, toks', hnext, htail, rfl⟩
    · exact hmore
    · obtain ⟨hr, r', hnext', hr'⟩ := getNextToken_append hs hrest hbegin hnext
      have hlt := getNextToken_length hnext
      have heat := eatWhitespace_length false r
      rw [tokenizeLoop_of_ok hnext', hr',
        ih _ (by omega) (hr.suffix (eatWhitespace_suffix false r)) htail rfl]
      rfl

end Append

/-! ## Where tokens come from -/

section Origin

variable {D : KeyDecoder} {table : List TokenRule}

theorem checkKey_ok {kwd : Bytes} {tok tok' : DirectoryToken} (h : checkKey kwd tok = .ok tok') :
    tok' = tok := by
  unfold checkKey at h
  split at h
  next => cases h
  next =>
    split at h
    next => cases h
    next => exact (Except.ok.inj h).symm

theorem checkKey1024_ok {kwd : Bytes} {tok tok' : DirectoryToken}
    (h : checkKey1024 kwd tok = .ok tok') : tok' = tok := by
  unfold checkKey1024 at h
  split at h
  next => exact checkKey_ok h
  next =>
    split at h
    next => cases h
    next => exact checkKey_ok h

/-- The check passes a token on as it is. -/
theorem tokenCheckObject_ok {kwd : Bytes} {tok tok' : DirectoryToken} {os : ObjSyntax}
    (h : tokenCheckObject kwd tok os = .ok tok') : tok' = tok := by
  have hif : ∀ {c : Prop} [Decidable c] {e : Bytes} {y : Except Bytes DirectoryToken},
      (if c then .error e else y) = .ok tok' → y = .ok tok' := by
    intro c _ e y hite
    split at hite
    next => cases hite
    next => exact hite
  cases os with
  | noObj => exact (Except.ok.inj (hif h)).symm
  | needObj => exact (Except.ok.inj (hif h)).symm
  | optKey1024 =>
    have h := hif h
    split at h
    next => exact (Except.ok.inj h).symm
    next => exact checkKey1024_ok h
  | needKey1024 => exact checkKey1024_ok h
  | needKey => exact checkKey_ok h
  | objOk => exact (Except.ok.inj h).symm

/-- Every token is read off at some place of the document. -/
theorem mem_tokenizeLoop {s : Bytes} {toks : List DirectoryToken} {tok : DirectoryToken}
    (h : tokenizeLoop D table s = .ok toks) (hmem : tok ∈ toks) :
    ∃ s' r, s' <:+ s ∧ getNextToken D table s' = .ok (tok, r) := by
  induction hn : s.length using Nat.strong_induction_on generalizing s toks with
  | _ n ih =>
    rcases tokenizeLoop_cases h with ⟨-, rfl⟩ | ⟨tok', r, toks', hnext, htail, rfl⟩
    · exact absurd hmem List.not_mem_nil
    · rcases List.mem_cons.mp hmem with rfl | hmem
      · exact ⟨s, r, List.suffix_refl s, hnext⟩
      · have hlt := getNextToken_length hnext
        have heat := eatWhitespace_length false r
        obtain ⟨s', r', hsuf, hs'⟩ := ih _ (by omega) htail hmem rfl
        exact ⟨s', r', hsuf.trans ((eatWhitespace_suffix false r).trans (getNextToken_suffix hnext)),
          hs'⟩

end Origin

/-! ## One more token -/

section Insert

theorem forM_eq_ok {ε α : Type} {f : α → Except ε Unit} {l : List α} :
    l.forM f = .ok () ↔ ∀ a ∈ l, f a = .ok () := by
  induction l with
  | nil => exact ⟨fun _ _ h => absurd h List.not_mem_nil, fun _ => rfl⟩
  | cons a l ih =>
    rw [List.forall_mem_cons, ← ih]
    show (f a >>= fun _ => l.forM f) = .ok () ↔ _
    rw [except_bind_eq_ok]
    exact ⟨fun ⟨_, ha, hl⟩ => ⟨ha, hl⟩, fun ⟨ha, hl⟩ => ⟨(), ha, hl⟩⟩

theorem checkRule_iff {first : ℕ} {out : List DirectoryKeyword} {r : TokenRule} :
    checkRule first out r = .ok () ↔
      r.minCnt ≤ out.count r.v ∧ out.count r.v ≤ r.maxCnt
        ∧ (r.atStart = true → out[first]? = some r.v)
        ∧ (r.atEnd = true → out.getLast? = some r.v) := by
  unfold checkRule
  constructor
  · intro h
    split at h
    next => cases h
    next hmin =>
      split at h
      next => cases h
      next hmax =>
        split at h
        next => cases h
        next hstart =>
          split at h
          next => cases h
          next hend =>
            exact ⟨not_lt.mp hmin, not_lt.mp hmax, fun ha => not_not.mp fun hne => hstart ⟨ha, hne⟩,
              fun ha => not_not.mp fun hne => hend ⟨ha, hne⟩⟩
  · rintro ⟨hmin, hmax, hstart, hend⟩
    rw [if_neg (not_lt.mpr hmin), if_neg (not_lt.mpr hmax), if_neg fun h => h.2 (hstart h.1),
      if_neg fun h => h.2 (hend h.1)]

variable {L M : List DirectoryKeyword} {x : DirectoryKeyword}

theorem any_insert {f : DirectoryKeyword → Bool} (hx : f x = false) (L : List DirectoryKeyword) :
    (L ++ x :: M).any f = (L ++ M).any f := by
  rw [List.any_append, List.any_append, List.any_cons, hx, Bool.false_or]

/-- A token that is no annotation does not move the first one that is none. -/
theorem firstNonannotation_insert {flags : TokenizeFlags} {n first : ℕ}
    (hL : ∃ tp ∈ L, tp.amongAnnotations = false) (hx : x.amongAnnotations = false)
    (h : firstNonannotation flags n (L ++ M) = .ok first) :
    firstNonannotation flags n (L ++ x :: M) = .ok first ∧ first < L.length := by
  unfold firstNonannotation at h ⊢
  have hpos : ∃ k, L.findIdx? (fun tp => !tp.amongAnnotations) = some k := by
    rw [← Option.isSome_iff_exists, List.findIdx?_isSome]
    obtain ⟨tp, htp, hno⟩ := hL
    exact List.any_eq_true.mpr ⟨tp, htp, by rw [hno]; rfl⟩
  obtain ⟨k, hk⟩ := hpos
  have hlt : k < L.length := (List.findIdx?_eq_some_iff_getElem.mp hk).1
  -- it is found in `L`, whatever comes behind
  have hfind : ∀ N : List DirectoryKeyword,
      (L ++ N).findIdx? (fun tp => !tp.amongAnnotations) = some k := by
    intro N
    rw [List.findIdx?_append, hk]
    rfl
  split at h
  next hflag =>
    rw [if_pos hflag, hfind]
    rw [hfind] at h
    dsimp only at h ⊢
    rw [List.drop_append_of_le_length hlt.le] at h
    rw [List.drop_append_of_le_length hlt.le, any_insert hx]
    split at h
    next => cases h
    next hmixed =>
      split at h
      next => cases h
      next hcount =>
        obtain rfl := Except.ok.inj h
        rw [if_neg hmixed, if_neg hcount]
        exact ⟨rfl, hlt⟩
  next hflag =>
    rw [if_neg hflag, any_insert hx]
    split at h
    next => cases h
    next hnone =>
      obtain rfl := Except.ok.inj h
      rw [if_neg hnone]
      exact ⟨rfl, lt_of_le_of_lt (Nat.zero_le k) hlt⟩

/-- A document that passes the checks still does with one more item of a new kind, if the
table allows the kind once. -/
theorem checkTokens_insert {table : List TokenRule} {flags : TokenizeFlags} {n : ℕ}
    (hL : ∃ tp ∈ L, tp.amongAnnotations = false) (hM : M ≠ []) (hx : x.amongAnnotations = false)
    (hnew : x ∉ L ++ M) (hrule : ∀ r ∈ table, r.v = x → r.minCnt ≤ 1 ∧ 1 ≤ r.maxCnt)
    (h : checkTokens table flags n (L ++ M) = .ok ()) :
    checkTokens table flags n (L ++ x :: M) = .ok () := by
  unfold checkTokens at h ⊢
  split at h
  next hflag => rw [if_pos hflag]
  next hflag =>
    rw [if_neg hflag]
    obtain ⟨first, hfirst, hrules⟩ := except_bind_eq_ok.mp h
    obtain ⟨hfirst', hlt⟩ := firstNonannotation_insert hL hx hfirst
    refine except_bind_eq_ok.mpr ⟨first, hfirst', forM_eq_ok.mpr fun r hr => ?_⟩
    obtain ⟨hmin, hmax, hstart, hend⟩ := checkRule_iff.mp (forM_eq_ok.mp hrules r hr)
    -- `atStart` looks into `L` and `atEnd` into `M`: only the counts change
    have hcount : (L ++ x :: M).count r.v = (L ++ M).count r.v + if x = r.v then 1 else 0 := by
      rw [List.count_append, List.count_append, List.count_cons]
      simp only [beq_iff_eq]
      omega
    rw [checkRule_iff, hcount]
    refine ⟨by omega, ?_, fun ha => ?_, fun ha => ?_⟩
    · by_cases hv : x = r.v
      · subst hv
        rw [List.count_eq_zero_of_not_mem hnew, if_pos rfl]
        exact (hrule r hr rfl).2
      · rw [if_neg hv]
        exact hmax
    · rw [← hstart ha, List.getElem?_append_left hlt, List.getElem?_append_left hlt]
    · rw [← hend ha, List.getLast?_append_of_ne_nil _ (by simp), List.getLast?_append_of_ne_nil _ hM,
        List.getLast?_cons_of_ne_nil hM]

end Insert

end Dittor.Tor

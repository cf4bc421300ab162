import Dittor.Registration.DAServer

/-!
# The Tor side of the check (`routerparse.c`, `dittor_proxy.c`)

`router_parse_entry_from_string` asks the directory authority about every
descriptor it parses. The part of it that the patch adds is modelled here with
everything it depends on: the arguments as `get_token_arguments` cuts them out of
the `dittor-proof` line, the node id and the family ids, the `VALIDATE` line as
`snprintf` leaves it in a buffer of 16384 bytes, and the exchange of
`dittorProxy` with the bridge, in which no answer is read as `NULL`.

The checks of Tor itself, before and after, only decide whether a router is
returned at all; they are two flags of the descriptor. At most one
`dittor-proof` line is accepted by the token table, and its arguments end at the
end of the line. Family ids come from verified certificates and are `ed25519:`
followed by the base64 of the family key, which the type `FamilyId` carries.
-/

namespace Dittor.Tor

open Dittor.Lib Dittor.Crypto Dittor.Dkg Dittor.Registration

abbrev Bytes := List UInt8

instance lawfulBEqBytes : LawfulBEq Bytes := inferInstance

/-- The byte of an ASCII character. -/
def byte (c : Char) : UInt8 := UInt8.ofNat c.toNat

/-- The bytes of a C string literal. -/
def cstring (s : String) : Bytes := s.toByteArray.data.toList

/-! ## The tokenizer -/

/-- Where `find_whitespace` stops. -/
def isWhitespace (b : UInt8) : Bool :=
  b = 0 || b = byte '#' || b = byte ' ' || b = byte '\r' || b = byte '\n' || b = byte '\t'

/-- `eat_whitespace`; the flag is set inside a comment, which runs to the end of the line. -/
def eatWhitespace : Bool → Bytes → Bytes
  | _, [] => []
  | true, b :: bs => if b = byte '\n' then eatWhitespace false bs else eatWhitespace true bs
  | false, b :: bs =>
    if b = byte ' ' || b = byte '\t' || b = byte '\n' || b = byte '\r' then eatWhitespace false bs
    else if b = byte '#' then eatWhitespace true bs
    else b :: bs

theorem eatWhitespace_length : ∀ (c : Bool) (bs : Bytes), (eatWhitespace c bs).length ≤ bs.length := by
  intro c bs
  induction bs generalizing c with
  | nil => cases c <;> exact le_refl 0
  | cons b bs ih =>
    cases c with
    | true =>
      rw [eatWhitespace]
      split
      · exact le_trans (ih false) (Nat.le_succ _)
      · exact le_trans (ih true) (Nat.le_succ _)
    | false =>
      rw [eatWhitespace]
      split
      · exact le_trans (ih false) (Nat.le_succ _)
      · split
        · exact le_trans (ih true) (Nat.le_succ _)
        · exact le_refl _

/-- The loop of `get_token_arguments`: one argument up to the next whitespace, whose first
byte is overwritten by NUL, then on behind the rest of it. -/
def tokenArguments (cp : Bytes) : List Bytes :=
  if cp = [] then []
  else
    match _h : cp.dropWhile fun b => !isWhitespace b with
    | [] => [cp.takeWhile fun b => !isWhitespace b]
    | _ :: rest => (cp.takeWhile fun b => !isWhitespace b) :: tokenArguments (eatWhitespace false rest)
termination_by cp.length
decreasing_by
  have h1 := eatWhitespace_length false rest
  have h2 := (List.dropWhile_suffix (fun b => !isWhitespace b) (l := cp)).length_le
  rw [_h, List.length_cons] at h2
  omega

/-- `MAX_ARGS` -/
def maxArgs : ℕ := 512

/-- `get_token_arguments`; `none` when there are too many. -/
def getTokenArguments (line : Bytes) : Option (List Bytes) :=
  if (tokenArguments line).length ≤ maxArgs then some (tokenArguments line) else none

/-! ## Descriptors -/

/-- The characters of base64. -/
def isBase64 (b : UInt8) : Bool :=
  (byte 'A' ≤ b && b ≤ byte 'Z') || (byte 'a' ≤ b && b ≤ byte 'z')
    || (byte '0' ≤ b && b ≤ byte '9') || b = byte '+' || b = byte '/'

/-- A family id as `check_one_family_cert` builds it. -/
structure FamilyId where
  key : Bytes
  base64 : ∀ b ∈ key, isBase64 b = true

/-- `"ed25519:%s"` -/
def FamilyId.text (f : FamilyId) : Bytes := cstring "ed25519:" ++ f.key

/-- The text between the keyword of a line and its end: no NUL (`tokenize_string` checks
for it), no newline, and not longer than `MAX_LINE_LENGTH`. -/
structure ArgumentLine where
  bytes : Bytes
  clean : ∀ b ∈ bytes, b ≠ 0 ∧ b ≠ byte '\n'
  short : bytes.length ≤ 128 * 1024

/-- What the patch reads of a descriptor. -/
structure Descriptor where
  /-- The `dittor-proof` line, if there is one. -/
  proofLine : Option ArgumentLine
  /-- `identity_digest`, the SHA-1 of the signing key. -/
  identityDigest : Bytes
  digest_len : identityDigest.length = 20
  familyIds : List FamilyId
  /-- Whether Tor's own checks before the patch pass. -/
  before : Bool
  /-- Whether those after it pass. -/
  after : Bool

/-- One digit of `base16_encode`. -/
def base16Digit (n : ℕ) : UInt8 := if n < 10 then UInt8.ofNat (48 + n) else UInt8.ofNat (55 + n)

/-- `base16_encode` -/
def base16Encode (src : Bytes) : Bytes :=
  src.flatMap fun b => [base16Digit (b.toNat / 16), base16Digit (b.toNat % 16)]

theorem length_base16Encode (src : Bytes) : (base16Encode src).length = 2 * src.length := by
  unfold base16Encode
  rw [List.length_flatMap]
  simp [Nat.mul_comm]

namespace Descriptor

variable (d : Descriptor)

/-- `node_id_hex` -/
def nodeIdHex : Bytes := base16Encode d.identityDigest

/-- `family_ids_str` -/
def familyIdsStr : Bytes :=
  if d.familyIds = [] then cstring "-" else [byte ','].intercalate (d.familyIds.map FamilyId.text)

/-- The arguments of the token: the table's rule for `dittor-proof` is `GE(8)`. -/
def proofArgs : Option (List Bytes) :=
  d.proofLine.bind fun line => (getTokenArguments line.bytes).filter fun args => 8 ≤ args.length

/-- The condition of the patch on the token: there, and with the context of the consensus. -/
def hasProof : Option (List Bytes) :=
  d.proofArgs.filter fun args => args.head? = some (cstring "TorRelayConsensus2026")

end Descriptor

/-- What `snprintf` is asked to print. -/
def validationLine (args : List Bytes) (d : Descriptor) : Bytes :=
  cstring "VALIDATE " ++ [byte '|'].intercalate (args.take 8 ++ [d.nodeIdHex, d.familyIdsStr])
    ++ [byte '\n']

/-- `sizeof(validation_payload)` -/
def payloadSize : ℕ := 16384

/-- `snprintf`: at most `size - 1` bytes are kept. -/
def snprintf (size : ℕ) (s : Bytes) : Bytes := s.take (size - 1)

/-- How the patch's block ends. -/
inductive Verdict where
  /-- `Verification SUCCESS` -/
  | verified
  /-- `Verification REJECTED by backend` -/
  | rejected
  /-- `Loopback connection to port 8081 failed. Keeping node alive.` -/
  | keptAlive
  /-- `has no valid dittor-proof token. Rejecting.` -/
  | noProof
deriving DecidableEq, Repr

/-- `tor_strstrip(s, "\r\n ")` -/
def strstrip (s : Text) : Text := s.filter fun c => !(c = '\r' || c = '\n' || c = ' ')

section Block

variable {p : ℕ} {G1 G2 GT : Type} [CommGroup G1] [CommGroup G2] [CommGroup GT]
  [DecidableEq GT] (R : Restorer p G1 G2 GT) (S : CryptimeleonSetup p G1 G2 GT)

/-- `dittorProxy` with the bridge up: the message is sent, the socket stays open, and the
answer is cut at the end of its line. `none` is `NULL`: nothing was read before the
bridge closed the connection. -/
def dittorProxy (da : DA G2) (message : Bytes) : DA G2 × Option Text :=
  let o := serve R S da message false
  (o.1, o.2.map fun reply => (reply ++ ['\n']).takeWhile fun c => !isLineEnd c)

/-- The patch's block, for the arguments of an accepted token. -/
def askBackend (da : DA G2) (args : List Bytes) (d : Descriptor) : DA G2 × Verdict :=
  let o := dittorProxy R S da (snprintf payloadSize (validationLine args d))
  match o.2 with
  | none => (o.1, .keptAlive)
  | some response =>
    if strstrip response = "VALID".toList
        ∨ strstrip response = "Added to Tor relay consensus directory.".toList then
      (o.1, .verified)
    else (o.1, .rejected)

def dittorBlock (da : DA G2) (d : Descriptor) : DA G2 × Verdict :=
  match d.hasProof with
  | none => (da, .noProof)
  | some args => askBackend R S da args d

/-- What `router_parse_entry_from_string` does with a descriptor. -/
structure ParseResult (G2 : Type) where
  da : DA G2
  /-- `none` when the patch's block is not reached. -/
  verdict : Option Verdict
  /-- Whether a router is returned. -/
  router : Bool

/-- `router_parse_entry_from_string`. A `dittor-proof` line with too few or too many
arguments already fails in the tokenizer, without an entry of the block. -/
def routerParseEntry (da : DA G2) (d : Descriptor) : ParseResult G2 :=
  if d.before = false ∨ (d.proofLine.isSome ∧ d.proofArgs = none) then ⟨da, none, false⟩
  else
    let o := dittorBlock R S da d
    match o.2 with
    | .verified => ⟨o.1, some .verified, d.after⟩
    | .keptAlive => ⟨o.1, some .keptAlive, d.after⟩
    | .rejected => ⟨o.1, some .rejected, false⟩
    | .noProof => ⟨o.1, some .noProof, false⟩

end Block

end Dittor.Tor

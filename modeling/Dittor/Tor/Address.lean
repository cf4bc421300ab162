import Mathlib
import Dittor.Lib.Decimal
import Dittor.Tor.Base64

/-!
# Addresses, masks and ports (`address.c`, `inaddr.c`)

`tor_addr_parse_mask_ports` reads patterns such as `10.0.0.0/8:80-443`, `[fc00::]/7` or `*:*`.
The three parts are cut at the brackets, the first `/` and the first `:`.

The range of ports is what the summary of a policy rests on. It lies between 1 and 65535, and it
is empty for one kind of text only: a single port that is zero (`parsePortRange_spec`), where the
lower end is moved up to 1 and the upper one is not.
-/

namespace Dittor.Tor

open Dittor.Lib

/-! ## Addresses -/

/-- `tor_addr_t`: an address of IPv4 as a number, one of IPv6 as eight words. -/
inductive TorAddr where
  | unspec
  | inet (addr : ℕ)
  | inet6 (words : List ℕ)
deriving DecidableEq, Repr

/-- `AF_UNSPEC`, `AF_INET` and `AF_INET6` -/
inductive Family where
  | unspec | inet | inet6
deriving DecidableEq, Repr

/-- `tor_addr_family` -/
def TorAddr.family : TorAddr → Family
  | .unspec => .unspec
  | .inet _ => .inet
  | .inet6 _ => .inet6

/-- `%3u` of `tor_sscanf`: the digits and what follows them -/
def scanOctet (s : Bytes) : Option (Bytes × Bytes) :=
  let digits := (s.take 3).takeWhile isDigit
  if digits = [] then none else some (digits, s.drop digits.length)

/-- A dot in the pattern. -/
def scanDot : Bytes → Option Bytes
  | [] => none
  | b :: s => if b = byte '.' then some s else none

/-- `%3u.%3u.%3u.%3u%c`, of which exactly four have to match -/
def scanQuad (s : Bytes) : Option (List Bytes) := do
  let (a, s) ← scanOctet s
  let (b, s) ← (scanDot s).bind scanOctet
  let (c, s) ← (scanDot s).bind scanOctet
  let (d, s) ← (scanDot s).bind scanOctet
  if s = [] then some [a, b, c, d] else none

/-- The octets of a number, none above 255. -/
def quadValue (octets : List Bytes) : Option ℕ :=
  if ∀ o ∈ octets, decimalValue o ≤ 255 then
    some (octets.foldl (fun n o => 256 * n + decimalValue o) 0)
  else none

/-- `tor_inet_aton` -/
def torInetAton (str : Bytes) : Option ℕ := do
  let octets ← scanQuad str
  if ∃ o ∈ octets, 1 < o.length ∧ o.head? = some (byte '0') then none
  else quadValue octets

/-- `TOR_ISXDIGIT` -/
def isXDigit (b : UInt8) : Bool := (hexDecodeDigit b).isSome

/-- `strtol` in base sixteen, on digits -/
def hexValue (digits : Bytes) : ℕ := digits.foldl (fun n b => 16 * n + (hexDecodeDigit b).getD 0) 0

/-- The words in front of a dotted end, and the dotted end. -/
def splitQuad (src : Bytes) : Option (Bytes × Option Bytes) :=
  match src.dropWhile (fun b => b ≠ byte '.') with
  | [] => some (src, none)
  | dotted =>
    let front := src.takeWhile fun b => b ≠ byte '.'
    let digits := (front.reverse.takeWhile isDigit).reverse
    match front.reverse.dropWhile isDigit with
    | [] => none
    | b :: _ =>
      if b ≠ byte ':' then none
      else some (front.take (front.length - digits.length), some (digits ++ dotted))

/-- The loop over the words: those read, and where the gap is. A word with `0x` in front is
refused because a `:` does not follow the zero. -/
def inetWords : ℕ → Bytes → List ℕ → Option ℕ → Option (List ℕ × Option ℕ)
  | _, [], words, gapPos => some (words, gapPos)
  | 0, _ :: _, _, _ => none
  | n + 1, b :: src, words, gapPos =>
    if 7 < words.length then none
    else if isXDigit b then
      let digits := (b :: src).takeWhile isXDigit
      if 4 < digits.length then none
      else
        match (b :: src).dropWhile isXDigit with
        | [] => some (words ++ [hexValue digits], gapPos)
        | c :: rest =>
          if c = byte ':' then inetWords n rest (words ++ [hexValue digits]) gapPos else none
    else if b = byte ':' ∧ 0 < words.length ∧ gapPos = none then
      inetWords n src words (some words.length)
    else if b = byte ':' ∧ words.length = 0 ∧ src.head? = some (byte ':') ∧ gapPos = none then
      inetWords n (src.drop 1) words (some 0)
    else none

/-- `tor_inet_pton` for `AF_INET6`, as eight words -/
def torInetPton6 (src : Bytes) : Option (List ℕ) :=
  if 2 < src.length ∧ src.getLast? = some (byte ':') ∧ src.dropLast.getLast? ≠ some (byte ':') then
    none
  else do
    let (front, dotted) ← splitQuad src
    let tail ← match dotted with
      | none => some []
      | some text => ((scanQuad text).bind quadValue).map fun v => [v / 65536, v % 65536]
    let (words, gapPos) ← inetWords front.length front [] none
    let setWords := words.length + tail.length
    match gapPos with
    | none => if setWords = 8 then some (words ++ tail) else none
    | some g =>
      if setWords < 8 then
        some (words.take g ++ List.replicate (8 - setWords) 0 ++ words.drop g ++ tail)
      else none

/-- `tor_addr_is_v4` of an address of IPv6 -/
def isV4Mapped (words : List ℕ) : Bool := words.take 6 = [0, 0, 0, 0, 0, 65535]

/-! ## Masks -/

/-- `addr_mask_get_bits` -/
def addrMaskGetBits (mask : ℕ) : Option ℕ :=
  if mask = 0 then some 0
  else if mask = 2 ^ 32 - 1 then some 32
  else (List.range' 1 32).find? fun i => mask = 2 ^ 32 - 2 ^ (32 - i)

/-- `(int) strtol(mask, &endptr, 10)` if `endptr` is at the end. Without digits nothing is
converted, and a number out of range becomes the nearest `long`. -/
def maskNumber (mask : Bytes) : Option ℤ :=
  match strtol mask with
  | none => if mask = [] then some 0 else none
  | some (r, rest) =>
    if rest = [] then some (Int.bmod (max (-2 ^ 63) (min r (2 ^ 63 - 1))) (2 ^ 32)) else none

/-- The number of bits that a mask stands for, before it is fitted to the address. -/
def maskValue (family : Family) (mask : Bytes) : Option ℕ :=
  match maskNumber mask with
  | some bits =>
    if bits < 0 ∨ 128 < bits ∨ (family = .inet ∧ 32 < bits) then none else some bits.toNat
  | none => (torInetAton mask).bind addrMaskGetBits

/-- A mask for the address; that of a mapped address of IPv4 is moved to its last bits. -/
def fitMask (addr : TorAddr) (bits : ℕ) : Option ℕ :=
  match addr with
  | .inet6 words =>
    if isV4Mapped words then
      if 32 < bits ∧ bits < 96 then none else some (96 + bits % 32)
    else some bits
  | _ => some bits

/-- A mask that is given. A star takes none. -/
def givenMask (addr : TorAddr) (anyFlag : Bool) (mask : Bytes) : Option ℕ :=
  if anyFlag then none else (maskValue addr.family mask).bind (fitMask addr)

/-- A mask that is not. -/
def defaultMask (addr : TorAddr) (anyFlag : Bool) : ℕ :=
  if anyFlag then 0
  else
    match addr with
    | .inet _ => 32
    | .inet6 _ => 128
    | .unspec => 0

/-- `*maskbits_out` -/
def maskBits (addr : TorAddr) (anyFlag : Bool) : Option Bytes → Option ℕ
  | some mask => givenMask addr anyFlag mask
  | none => some (defaultMask addr anyFlag)

/-! ## Ports -/

/-- `tor_parse_long` in base ten with `next` -/
def torParseLongNext (min max : ℤ) (s : Bytes) : Option (ℤ × Bytes) :=
  match strtol s with
  | none => none
  | some (r, next) => if r < min ∨ max < r then none else some (r, next)

/-- The two ends as they are written. -/
def portNumbers (port : Bytes) : Option (ℤ × ℤ) :=
  match torParseLongNext 0 65535 port with
  | none => none
  | some (portMin, []) => some (portMin, portMin)
  | some (portMin, b :: rest) =>
    if b ≠ byte '-' then none
    -- what follows the second number is not looked at
    else (torParseLongNext 1 65535 rest).map fun r => (portMin, r.1)

/-- `parse_port_range`, `none` for a missing text -/
def parsePortRange : Option Bytes → Option (ℕ × ℕ)
  | none => some (1, 65535)
  | some port =>
    if port = [] ∨ port = cstring "*" then some (1, 65535)
    else
      match portNumbers port with
      | none => none
      | some (portMin, portMax) =>
        if portMax < portMin then none
        else some ((max portMin 1).toNat, (min portMax 65535).toNat)

/-- A single port that is zero, in whatever spelling. -/
def IsPortZero (port : Option Bytes) : Prop := ∃ text ∈ port, strtol text = some (0, [])

instance : DecidablePred IsPortZero := fun port =>
  match port with
  | none => isFalse fun ⟨_, h, _⟩ => nomatch h
  | some text =>
    decidable_of_iff (strtol text = some (0, []))
      ⟨fun h => ⟨text, rfl, h⟩, fun ⟨_, ht, h⟩ => Option.some.inj ht ▸ h⟩

theorem torParseLongNext_iff {min max r : ℤ} {s next : Bytes} :
    torParseLongNext min max s = some (r, next) ↔
      strtol s = some (r, next) ∧ min ≤ r ∧ r ≤ max := by
  unfold torParseLongNext
  cases hread : strtol s with
  | none => simp
  | some o =>
    obtain ⟨r', next'⟩ := o
    dsimp only
    by_cases hout : r' < min ∨ max < r'
    · rw [if_pos hout]
      constructor
      · intro h
        cases h
      · rintro ⟨heq, hmin, hmax⟩
        obtain ⟨rfl, rfl⟩ := Prod.mk.inj (Option.some.inj heq)
        omega
    · rw [if_neg hout]
      constructor
      · intro h
        obtain ⟨rfl, rfl⟩ := Prod.mk.inj (Option.some.inj h)
        exact ⟨rfl, by omega, by omega⟩
      · rintro ⟨heq, -, -⟩
        exact heq

/-- The two numbers, and when both are zero. -/
theorem portNumbers_spec {port : Bytes} {portMin portMax : ℤ}
    (h : portNumbers port = some (portMin, portMax)) :
    0 ≤ portMin ∧ portMax ≤ 65535 ∧ portMin ≤ 65535 ∧ 0 ≤ portMax
      ∧ (portMax = 0 ↔ strtol port = some (0, [])) := by
  unfold portNumbers at h
  split at h
  next => cases h
  next r hfirst =>
    obtain ⟨hread, hmin, hmax⟩ := torParseLongNext_iff.mp hfirst
    obtain ⟨rfl, rfl⟩ := Prod.mk.inj (Option.some.inj h)
    refine ⟨hmin, hmax, hmax, hmin, ?_⟩
    rw [hread]
    simp
  next r b rest hfirst =>
    obtain ⟨hread, hmin, hmax⟩ := torParseLongNext_iff.mp hfirst
    split at h
    next => cases h
    next =>
      obtain ⟨⟨r', next⟩, hsecond, heq⟩ := Option.map_eq_some_iff.mp h
      obtain ⟨rfl, rfl⟩ := Prod.mk.inj heq
      obtain ⟨-, hlow, hhigh⟩ := torParseLongNext_iff.mp hsecond
      -- the second number is at least one, and the first is followed by something
      refine ⟨hmin, hhigh, hmax, by omega, ?_⟩
      rw [hread]
      simp
      omega

/-- **The range that is read.** It is empty for a single port zero, and only then. -/
theorem parsePortRange_spec {port : Option Bytes} {lo hi : ℕ}
    (h : parsePortRange port = some (lo, hi)) :
    1 ≤ lo ∧ lo ≤ 65535 ∧ hi ≤ 65535 ∧ (IsPortZero port → lo = 1 ∧ hi = 0)
      ∧ (¬ IsPortZero port → lo ≤ hi) := by
  have hall : ∀ {port : Option Bytes}, ¬ IsPortZero port → some (1, 65535) = some (lo, hi) →
      1 ≤ lo ∧ lo ≤ 65535 ∧ hi ≤ 65535 ∧ (IsPortZero port → lo = 1 ∧ hi = 0)
        ∧ (¬ IsPortZero port → lo ≤ hi) := by
    intro port hzero heq
    obtain ⟨rfl, rfl⟩ := Prod.mk.inj (Option.some.inj heq)
    exact ⟨by decide, by decide, by decide, fun hp => absurd hp hzero, fun _ => by decide⟩
  cases port with
  | none => exact hall (by decide) h
  | some port =>
    rw [parsePortRange] at h
    split at h
    next hwild =>
      refine hall ?_ h
      rcases hwild with rfl | rfl
      · decide
      · decide
    next =>
      split at h
      next => cases h
      next portMin portMax hnumbers =>
        obtain ⟨hmin, hmax, hmin', hmax', hzero⟩ := portNumbers_spec hnumbers
        split at h
        next => cases h
        next horder =>
          obtain ⟨rfl, rfl⟩ := Prod.mk.inj (Option.some.inj h)
          have hiff : IsPortZero (some port) ↔ portMax = 0 := by
            rw [hzero]
            exact ⟨fun ⟨_, ht, hz⟩ => Option.some.inj ht ▸ hz, fun hz => ⟨port, rfl, hz⟩⟩
          rw [hiff]
          refine ⟨by omega, by omega, by omega, fun hp => by omega, fun hp => by omega⟩

/-! ## Patterns -/

/-- The three parts of a pattern. -/
structure AddrParts where
  address : Bytes
  mask : Option Bytes
  port : Option Bytes

/-- What stands behind the first `c`. -/
def behind (c : Char) (s : Bytes) : Option Bytes :=
  if byte c ∈ s then some ((s.dropWhile fun b => b ≠ byte c).drop 1) else none

/-- What stands in front of it. -/
def upTo (c : Char) (s : Bytes) : Bytes := s.takeWhile fun b => b ≠ byte c

/-- The mask and the port of a text that begins behind the address. The port is searched for
behind the mask. -/
def splitTail (tail : Bytes) : Option Bytes × Option Bytes :=
  match behind '/' tail with
  | some text => (some (upTo ':' text), behind ':' text)
  | none => (none, behind ':' tail)

/-- The pattern cut into strings. What stands between a bracket and the mask or the port is
dropped. -/
def splitAddr : Bytes → Option AddrParts
  | [] => some ⟨[], none, none⟩
  | b :: s =>
    if b = byte '[' then
      match behind ']' s with
      | none => none
      | some tail => some ⟨upTo ']' s, (splitTail tail).1, (splitTail tail).2⟩
    else
      let address := if byte '/' ∈ b :: s then upTo '/' (b :: s) else upTo ':' (b :: s)
      some ⟨address, (splitTail (b :: s)).1, (splitTail (b :: s)).2⟩

/-- `TAPMP_EXTENDED_STAR` and `TAPMP_STAR_IPV6_ONLY`; the policies never ask for IPv4 only. -/
structure StarFlags where
  extendedStar : Bool := false
  starIpv6Only : Bool := false

/-- All zeros. -/
def nilWords : List ℕ := List.replicate 8 0

/-- The address, and `any_flag`. -/
def parseAddress (flags : StarFlags) (address : Bytes) : Option (TorAddr × Bool) :=
  if address = cstring "*" then
    if flags.extendedStar then
      if flags.starIpv6Only then some (.inet6 nilWords, true) else some (.unspec, true)
    else some (.inet 0, true)
  else if address = cstring "*4" ∧ flags.extendedStar then some (.inet 0, true)
  else if address = cstring "*6" ∧ flags.extendedStar then some (.inet6 nilWords, true)
  else
    match torInetPton6 address with
    | some words => some (.inet6 words, false)
    | none => (torInetAton address).map fun a => (.inet a, false)

/-- `MAX_ADDRESS_LENGTH` -/
def maxAddressLength : ℕ := 48 + 2 + (1 + 16) + 12 + 1

/-- The address, the bits of its mask and the text of the ports. -/
def parseAddrMask (flags : StarFlags) (s : Bytes) : Option (TorAddr × ℕ × Option Bytes) :=
  if maxAddressLength < s.length then none
  else
    match splitAddr s with
    | none => none
    | some parts =>
      match parseAddress flags parts.address with
      | none => none
      | some (addr, anyFlag) =>
        (maskBits addr anyFlag parts.mask).map fun bits => (addr, bits, parts.port)

/-- `tor_addr_parse_mask_ports` -/
def torAddrParseMaskPorts (flags : StarFlags) (s : Bytes) : Option (TorAddr × ℕ × ℕ × ℕ) :=
  (parseAddrMask flags s).bind fun r =>
    (parsePortRange r.2.2).map fun ports => (r.1, r.2.1, ports)

/-- `tor_addr_parse_mask_ports` without room for ports -/
def torAddrParseMask (s : Bytes) : Option (TorAddr × ℕ) :=
  (parseAddrMask {} s).bind fun r => if r.2.2.isSome then none else some (r.1, r.2.1)

end Dittor.Tor

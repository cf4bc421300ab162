import Mathlib
import Dittor.Tor.Pipeline
import Dittor.Tor.PolicyText

/-!
# The parts of a printed rule (`policies.c`, `address.c`)

The parser cuts the text of a printed rule where `policy_write_item` joined it, and finds in its
parts what they were printed from: the ports (`parsePortRange_printed`), unless their range is
empty, the mask (`maskBits_printed`), and the address (`parseAddrMask_printed`), where a star is
read as one of the addresses that it stands for. The text fits into the buffer
(`policyWriteItem_eq`).
-/

namespace Dittor.Tor

open Dittor.Lib

/-! ## Cutting -/

section Cut

variable {c : Char} {front mask port s : Bytes}

variable (port) in
theorem behind_append (h : byte c ∉ front) : behind c (front ++ byte c :: port) = some port := by
  have hall : ∀ b ∈ front, decide (b ≠ byte c) = true := by
    intro b hb
    exact decide_eq_true fun heq => h (heq ▸ hb)
  unfold behind
  rw [if_pos (by simp), List.dropWhile_append_of_pos hall, List.dropWhile_cons_of_neg (by simp)]
  rfl

variable (port) in
theorem upTo_append (h : byte c ∉ front) : upTo c (front ++ byte c :: port) = front := by
  have hall : ∀ b ∈ front, decide (b ≠ byte c) = true := by
    intro b hb
    exact decide_eq_true fun heq => h (heq ▸ hb)
  unfold upTo
  rw [List.takeWhile_append_of_pos hall, List.takeWhile_cons_of_neg (by simp), List.append_nil]

theorem behind_none (h : byte c ∉ s) : behind c s = none := if_neg h

/-- The mask as it stands behind the address. -/
def maskText : Option Bytes → Bytes
  | none => []
  | some mask => byte '/' :: mask

/-- The mask and the ports behind a text without their marks. -/
theorem splitTail_text {mask : Option Bytes} (hslash : byte '/' ∉ front) (hcolon : byte ':' ∉ front)
    (hmask : ∀ text ∈ mask, byte ':' ∉ text) (hport : byte '/' ∉ port) :
    splitTail (front ++ (maskText mask ++ byte ':' :: port)) = (mask, some port) := by
  unfold splitTail
  cases mask with
  | none =>
    have hnone : byte '/' ∉ front ++ byte ':' :: port := by
      rw [List.mem_append, List.mem_cons]
      rintro (h | h | h)
      · exact hslash h
      · exact absurd h (by decide)
      · exact hport h
    rw [maskText, List.nil_append, behind_none hnone]
    dsimp only
    rw [behind_append port hcolon]
  | some text =>
    rw [maskText, List.cons_append, behind_append _ hslash]
    dsimp only
    rw [upTo_append port (hmask text rfl), behind_append port (hmask text rfl)]

/-- An address without brackets, with its mask and ports. -/
theorem splitAddr_plain {mask : Option Bytes} (hne : front ≠ []) (hopen : byte '[' ∉ front)
    (hslash : byte '/' ∉ front) (hcolon : byte ':' ∉ front)
    (hmask : ∀ text ∈ mask, byte ':' ∉ text) (hport : byte '/' ∉ port) :
    splitAddr (front ++ (maskText mask ++ byte ':' :: port)) = some ⟨front, mask, some port⟩ := by
  have htail := splitTail_text hslash hcolon hmask hport
  have haddress : (if byte '/' ∈ front ++ (maskText mask ++ byte ':' :: port) then
        upTo '/' (front ++ (maskText mask ++ byte ':' :: port))
      else upTo ':' (front ++ (maskText mask ++ byte ':' :: port))) = front := by
    cases mask with
    | none =>
      have hnone : byte '/' ∉ front ++ byte ':' :: port := by
        rw [List.mem_append, List.mem_cons]
        rintro (h | h | h)
        · exact hslash h
        · exact absurd h (by decide)
        · exact hport h
      rw [maskText, List.nil_append, if_neg hnone, upTo_append port hcolon]
    | some text =>
      rw [maskText, List.cons_append, if_pos (by simp), upTo_append _ hslash]
  obtain ⟨b, front', rfl⟩ := List.exists_cons_of_ne_nil hne
  rw [List.cons_append] at htail haddress ⊢
  have hb : b ≠ byte '[' := fun h => hopen (h ▸ List.mem_cons_self)
  rw [splitAddr, if_neg hb]
  dsimp only
  rw [haddress, htail]

/-- An address in brackets, with its mask and ports. -/
theorem splitAddr_brackets {mask : Option Bytes} (hclose : byte ']' ∉ front)
    (hmask : ∀ text ∈ mask, byte ':' ∉ text) (hport : byte '/' ∉ port) :
    splitAddr (byte '[' :: front ++ [byte ']'] ++ (maskText mask ++ byte ':' :: port))
      = some ⟨front, mask, some port⟩ := by
  have htail : splitTail ([] ++ (maskText mask ++ byte ':' :: port)) = (mask, some port) :=
    splitTail_text List.not_mem_nil List.not_mem_nil hmask hport
  have hbehind := behind_append (maskText mask ++ byte ':' :: port) hclose
  have hupTo := upTo_append (maskText mask ++ byte ':' :: port) hclose
  rw [List.nil_append] at htail
  rw [List.append_assoc, List.singleton_append, List.cons_append, splitAddr, if_pos rfl, hbehind]
  dsimp only
  rw [hupTo, htail]

end Cut

/-! ## Numbers -/

section Numbers

variable {lo hi m : ℕ} {rest : Bytes}

theorem strtol_decimal (h : ∀ b ∈ rest.head?, isDigit b = false) :
    strtol (decimal m ++ rest) = some ((m : ℤ), rest) := by
  have hnat : decimalInt (m : ℤ) = decimal m := if_neg (by omega)
  rw [← hnat]
  exact strtol_decimalInt m h

theorem strtol_decimal_all : strtol (decimal m) = some ((m : ℤ), []) := by
  have hread : strtol (decimal m ++ []) = some ((m : ℤ), []) := strtol_decimal fun b hb => nomatch hb
  rwa [List.append_nil] at hread

theorem decimal_plain {b : UInt8} (hb : isDigit b = false) : b ∉ decimal m := fun hmem => by
  rw [isDigit_of_mem_decimal hmem] at hb
  cases hb

theorem decimal_ne_star : decimal m ≠ cstring "*" := fun h => by
  have hstar : byte '*' ∈ decimal m := by
    rw [h]
    decide
  exact decimal_plain (by decide) hstar

/-- The first end of a range. -/
theorem torParseLongNext_dash (h : lo ≤ 65535) :
    torParseLongNext 0 65535 (decimal lo ++ byte '-' :: rest) = some ((lo : ℤ), byte '-' :: rest) := by
  refine torParseLongNext_iff.mpr ⟨strtol_decimal fun b hb => ?_, by omega, by omega⟩
  obtain rfl := Option.some.inj hb
  decide

theorem portNumbers_single (h : lo ≤ 65535) : portNumbers (decimal lo) = some ((lo : ℤ), (lo : ℤ)) := by
  have hread : torParseLongNext 0 65535 (decimal lo) = some ((lo : ℤ), []) :=
    torParseLongNext_iff.mpr ⟨strtol_decimal_all, by omega, by omega⟩
  rw [portNumbers, hread]

theorem portNumbers_range (hlo : lo ≤ 65535) (hhi : 1 ≤ hi ∧ hi ≤ 65535) :
    portNumbers (decimal lo ++ byte '-' :: decimal hi) = some ((lo : ℤ), (hi : ℤ)) := by
  have hsecond : torParseLongNext 1 65535 (decimal hi) = some ((hi : ℤ), []) :=
    torParseLongNext_iff.mpr ⟨strtol_decimal_all, by omega, by omega⟩
  rw [portNumbers, torParseLongNext_dash hlo]
  dsimp only
  rw [if_neg (not_not.mpr rfl), hsecond]
  rfl

theorem portNumbers_zero (hlo : lo ≤ 65535) :
    portNumbers (decimal lo ++ byte '-' :: decimal 0) = none := by
  have hsecond : torParseLongNext 1 65535 (decimal 0) = none := by decide
  rw [portNumbers, torParseLongNext_dash hlo]
  dsimp only
  rw [if_neg (not_not.mpr rfl), hsecond]
  rfl

end Numbers

/-! ## The parts of a rule -/

section Parts

variable {p : AddrPolicy}

/-- **The ports are read back**, unless the range is empty. -/
theorem parsePortRange_printed (h : p.FromText) :
    parsePortRange (some p.portPart)
      = if p.prtMax = 0 then none else some (p.prtMin, p.prtMax) := by
  obtain ⟨hlo, hlo', hhi⟩ := h.ports
  have hrange := h.range
  unfold AddrPolicy.portPart
  split_ifs with hall hzero hsame hzero hzero
  · omega
  · rw [parsePortRange, if_pos (.inr rfl)]
    congr 2
    · omega
    · omega
  · omega
  · rw [parsePortRange, if_neg (not_or.mpr ⟨decimal_ne_nil _, decimal_ne_star⟩),
      portNumbers_single hlo']
    dsimp only
    rw [if_neg (lt_irrefl _), ← hsame]
    congr 2
    · omega
    · omega
  all_goals
    have hplain : ¬ (decimal p.prtMin ++ byte '-' :: decimal p.prtMax = []
        ∨ decimal p.prtMin ++ byte '-' :: decimal p.prtMax = cstring "*") := by
      rintro (hnil | hstar)
      · exact decimal_ne_nil _ (List.append_eq_nil_iff.mp hnil).1
      · have hmem : byte '-' ∈ cstring "*" := by
          rw [← hstar]
          simp
        exact absurd hmem (by decide)
    rw [parsePortRange, if_neg hplain]
  · rw [hzero, portNumbers_zero hlo']
  · rw [portNumbers_range hlo' ⟨by omega, hhi⟩]
    dsimp only
    rw [if_neg (by omega)]
    congr 2
    · omega
    · omega

/-- The number of the mask, if there is one. -/
def AddrPolicy.maskNumber (p : AddrPolicy) : Option Bytes :=
  if p.maskbits < (if p.addr.family = .inet6 then 128 else 32) ∧ 0 < p.maskbits then
    some (decimal p.maskbits)
  else none

theorem maskPart_eq : p.maskPart = maskText p.maskNumber := by
  unfold AddrPolicy.maskPart AddrPolicy.maskNumber
  split_ifs <;> rfl

theorem maskValue_decimal {family : Family} {m : ℕ} (hm : m ≤ 128) (h : family = .inet → m ≤ 32) :
    maskValue family (decimal m) = some m := by
  have hread : maskNumber (decimal m) = some (m : ℤ) := by
    unfold maskNumber
    rw [strtol_decimal_all]
    dsimp only
    rw [if_pos rfl, Int.bmod_def]
    split_ifs <;> congr 1 <;> omega
  unfold maskValue
  rw [hread]
  dsimp only
  refine (if_neg ?_).trans rfl
  rintro (hno | hno | ⟨hfamily, hno⟩)
  · omega
  · omega
  · have hle := h hfamily
    omega

/-- **The mask is read back**: a mapped address keeps one behind its first 96 bits. -/
theorem maskBits_printed (h : p.FromText) (hpos : 0 < p.maskbits) :
    maskBits p.addr false p.maskNumber = some p.maskbits := by
  have hmask6 := h.mask6
  have hfull : ∀ size, size = (if p.addr.family = .inet6 then 128 else 32) →
      ¬ (p.maskbits < (if p.addr.family = .inet6 then 128 else 32) ∧ 0 < p.maskbits) →
      size ≤ p.maskbits := by
    rintro size rfl hfull
    exact not_lt.mp fun hlt => hfull ⟨hlt, hpos⟩
  unfold AddrPolicy.maskNumber
  by_cases hgiven : p.maskbits < (if p.addr.family = .inet6 then 128 else 32) ∧ 0 < p.maskbits
  · rw [if_pos hgiven, maskBits, givenMask, if_neg (by decide), maskValue_decimal hmask6 h.mask,
      Option.bind_some]
    cases haddr : p.addr with
    | unspec => rfl
    | inet a => rfl
    | inet6 words =>
      rw [fitMask]
      split_ifs with hmapped hgap
      · have hlow := h.mapped words haddr hmapped
        omega
      · have hlow := h.mapped words haddr hmapped
        rw [haddr] at hgiven
        have hlt : p.maskbits < 128 := hgiven.1
        congr 1
        omega
      · rfl
  · rw [if_neg hgiven]
    cases haddr : p.addr with
    | unspec =>
      have hzero := h.ofUnspec haddr
      omega
    | inet a =>
      have hle := h.mask (by rw [haddr]; rfl)
      have hge := hfull 32 (by rw [haddr]; rfl) hgiven
      exact congrArg some (le_antisymm hge hle)
    | inet6 words =>
      have hge := hfull 128 (by rw [haddr]; rfl) hgiven
      exact congrArg some (le_antisymm hge hmask6)

end Parts

/-! ## The address -/

section Address

variable {p : AddrPolicy} {formatForDesc : Bool} {flags : StarFlags} {text port : Bytes}

/-- The address that is read where one was printed. -/
def AddrPolicy.readAddr (p : AddrPolicy) (formatForDesc : Bool) : TorAddr :=
  if p.isPrivate = false ∧ p.maskbits = 0 then
    if formatForDesc then .inet 0
    else
      match p.addr.family with
      | .inet6 => .inet6 nilWords
      | .inet => .inet 0
      | .unspec => .unspec
  else p.addr

/-- The bytes of an address without brackets: none that cuts the pattern or ends a word. -/
theorem ntoa_plain {a : ℕ} {b : UInt8} (hdigit : isDigit b = false) (hdot : b ≠ byte '.') :
    b ∉ torInetNtoa a := fun hmem => by
  rcases mem_ntoa hmem with h | h
  · rw [hdigit] at h
    cases h
  · exact hdot h

theorem ntop_plain {words : List ℕ} {b : UInt8} (hdigit : isXDigit b = false) (hcolon : b ≠ byte ':')
    (hdot : b ≠ byte '.') : b ∉ torInetNtop6 words := fun hmem => by
  rcases mem_ntop hmem with h | h | h
  · rw [hdigit] at h
    cases h
  · exact hcolon h
  · exact hdot h

theorem parseAddress_ntoa {a : ℕ} (ha : a < 2 ^ 32) :
    parseAddress flags (torInetNtoa a) = some (.inet a, false) := by
  have hstar : ∀ s, byte '*' ∈ s → torInetNtoa a ≠ s := by
    rintro s hs rfl
    exact ntoa_plain (by decide) (by decide) hs
  rw [parseAddress, if_neg (hstar _ (by decide)), if_neg fun h => hstar _ (by decide) h.1,
    if_neg fun h => hstar _ (by decide) h.1, torInetPton6_ntoa, torInetAton_ntoa ha]
  rfl

theorem parseAddress_ntop {words : List ℕ} (h : (TorAddr.inet6 words).InBits) :
    parseAddress flags (torInetNtop6 words) = some (.inet6 words, false) := by
  have hstar : ∀ s, byte '*' ∈ s → torInetNtop6 words ≠ s := by
    rintro s hs rfl
    exact ntop_plain (by decide) (by decide) (by decide) hs
  rw [parseAddress, if_neg (hstar _ (by decide)), if_neg fun h => hstar _ (by decide) h.1,
    if_neg fun h => hstar _ (by decide) h.1, torInetPton6_ntop h]

/-- The number of a mask has no colon. -/
theorem maskNumber_plain : ∀ mask ∈ p.maskNumber, byte ':' ∉ mask := by
  intro mask hmask
  rw [AddrPolicy.maskNumber, Option.mem_ite_none_right] at hmask
  obtain rfl := Option.some.inj hmask.2
  exact decimal_plain (by decide)

theorem parseAddrMask_of_split {s address : Bytes} {mask port : Option Bytes} {addr : TorAddr}
    {anyFlag : Bool} {bits : ℕ} (hlen : s.length ≤ maxAddressLength)
    (hsplit : splitAddr s = some ⟨address, mask, port⟩)
    (hread : parseAddress flags address = some (addr, anyFlag))
    (hmask : maskBits addr anyFlag mask = some bits) :
    parseAddrMask flags s = some (addr, bits, port) := by
  rw [parseAddrMask, if_neg (not_lt.mpr hlen), hsplit]
  dsimp only
  rw [hread]
  dsimp only
  rw [hmask]
  rfl

/-- A star is read as the family that it stands for. -/
theorem parseAddress_star_printed (hprivate : p.isPrivate = false) (hzero : p.maskbits = 0)
    (htext : p.addrPart formatForDesc = some text)
    (hflags : flags = { extendedStar := !formatForDesc, starIpv6Only := false }) :
    (text = cstring "*" ∨ text = cstring "*4" ∨ text = cstring "*6")
      ∧ parseAddress flags text = some (p.readAddr formatForDesc, true) := by
  unfold AddrPolicy.addrPart at htext
  unfold AddrPolicy.readAddr
  rw [hprivate, if_neg (by decide), if_pos hzero] at htext
  rw [if_pos ⟨hprivate, hzero⟩]
  subst hflags
  cases formatForDesc with
  | true =>
    obtain rfl := Option.some.inj htext
    rw [if_pos rfl]
    exact ⟨.inl rfl, by decide⟩
  | false =>
    rw [if_neg (by decide)] at htext ⊢
    cases hfamily : p.addr.family with
    | unspec =>
      rw [hfamily, if_neg (by decide), if_neg (by decide)] at htext
      obtain rfl := Option.some.inj htext
      exact ⟨.inl rfl, by decide⟩
    | inet =>
      rw [hfamily, if_neg (by decide), if_pos rfl] at htext
      obtain rfl := Option.some.inj htext
      exact ⟨.inr (.inl rfl), by decide⟩
    | inet6 =>
      rw [hfamily, if_pos rfl] at htext
      obtain rfl := Option.some.inj htext
      exact ⟨.inr (.inr rfl), by decide⟩

/-- **The address and the mask are read back.** -/
theorem parseAddrMask_printed (h : p.FromText) (hprivate : p.isPrivate = false)
    (htext : p.addrPart formatForDesc = some text)
    (hflags : flags = { extendedStar := !formatForDesc, starIpv6Only := false })
    (hport : byte '/' ∉ port)
    (hlen : (text ++ (p.maskPart ++ byte ':' :: port)).length ≤ maxAddressLength) :
    parseAddrMask flags (text ++ (p.maskPart ++ byte ':' :: port))
      = some (p.readAddr formatForDesc, p.maskbits, some port) := by
  rw [maskPart_eq] at hlen ⊢
  by_cases hzero : p.maskbits = 0
  · obtain ⟨hstar, hread⟩ := parseAddress_star_printed hprivate hzero htext hflags
    have hplain : text ≠ [] ∧ byte '[' ∉ text ∧ byte '/' ∉ text ∧ byte ':' ∉ text := by
      rcases hstar with rfl | rfl | rfl <;> decide
    obtain ⟨hne, hopen, hslash, hcolon⟩ := hplain
    have hnumber : p.maskNumber = none := if_neg fun hno => by omega
    refine parseAddrMask_of_split hlen (splitAddr_plain hne hopen hslash hcolon maskNumber_plain hport)
      hread ?_
    rw [hnumber, hzero]
    rfl
  · unfold AddrPolicy.addrPart at htext
    rw [hprivate, if_neg (by decide), if_neg hzero] at htext
    have hmask := maskBits_printed h (Nat.pos_of_ne_zero hzero)
    have hin := h.inBits
    rw [AddrPolicy.readAddr, if_neg fun hno => hzero hno.2]
    cases haddr : p.addr with
    | unspec => exact absurd (h.ofUnspec haddr) hzero
    | inet a =>
      rw [haddr] at htext hin hmask
      obtain rfl := Option.some.inj htext
      have hne : torInetNtoa a ≠ [] := by
        unfold torInetNtoa
        simp
      exact parseAddrMask_of_split hlen (splitAddr_plain hne (ntoa_plain (by decide) (by decide))
        (ntoa_plain (by decide) (by decide)) (ntoa_plain (by decide) (by decide)) maskNumber_plain
        hport) (parseAddress_ntoa hin) hmask
    | inet6 words =>
      rw [haddr] at htext hin hmask
      obtain rfl := Option.some.inj htext
      exact parseAddrMask_of_split hlen (splitAddr_brackets
        (ntop_plain (by decide) (by decide) (by decide)) maskNumber_plain hport)
        (parseAddress_ntop hin) hmask

end Address

/-! ## The line -/

section Line

variable {p : AddrPolicy} {formatForDesc : Bool} {text arg kw : Bytes} {b : UInt8}

/-- What stands behind the word. -/
def AddrPolicy.argument (p : AddrPolicy) (text : Bytes) : Bytes :=
  text ++ (p.maskPart ++ byte ':' :: p.portPart)

theorem xDigit_not_whitespace (h : isXDigit b = true) : isWhitespace b = false := by
  refine Bool.eq_false_iff.mpr fun hws => ?_
  rcases whitespace_cases hws with rfl | rfl | rfl | rfl | rfl | rfl <;> exact absurd h (by decide)

/-- The bytes of an address that is no `private`. -/
theorem mem_addrPart (hprivate : p.isPrivate = false) (htext : p.addrPart formatForDesc = some text)
    (hb : b ∈ text) : isXDigit b = true ∨ b ∈ cstring "*.:[]" := by
  have hstar : ∀ s ∈ [cstring "*", cstring "*4", cstring "*6"], ∀ b ∈ s,
      isXDigit b = true ∨ b ∈ cstring "*.:[]" := by decide +kernel
  by_cases hzero : p.maskbits = 0
  · obtain ⟨hkind, -⟩ := parseAddress_star_printed hprivate hzero htext rfl
    exact hstar text (by simpa using hkind) b hb
  · unfold AddrPolicy.addrPart at htext
    rw [hprivate, if_neg (by decide), if_neg hzero] at htext
    cases haddr : p.addr with
    | unspec =>
      rw [haddr] at htext
      cases htext
    | inet a =>
      rw [haddr] at htext
      obtain rfl := Option.some.inj htext
      rcases mem_ntoa hb with h | rfl
      · exact .inl (isXDigit_of_isDigit h)
      · exact .inr (by decide)
    | inet6 words =>
      rw [haddr] at htext
      obtain rfl := Option.some.inj htext
      rw [List.mem_append, List.mem_cons, List.mem_singleton] at hb
      rcases hb with (rfl | h) | rfl
      · exact .inr (by decide)
      · rcases mem_ntop h with h | rfl | rfl
        · exact .inl h
        · exact .inr (by decide)
        · exact .inr (by decide)
      · exact .inr (by decide)

theorem addrPart_of_private (hprivate : p.isPrivate = true)
    (htext : p.addrPart formatForDesc = some text) : text = cstring "private" := by
  rw [AddrPolicy.addrPart, if_pos hprivate] at htext
  exact (Option.some.inj htext).symm

theorem addrPart_clean (htext : p.addrPart formatForDesc = some text) :
    ∀ b ∈ text, isWhitespace b = false := by
  intro b hb
  cases hprivate : p.isPrivate with
  | true =>
    obtain rfl := addrPart_of_private hprivate htext
    have hclean : ∀ b ∈ cstring "private", isWhitespace b = false := by decide +kernel
    exact hclean b hb
  | false =>
    rcases mem_addrPart hprivate htext hb with h | h
    · exact xDigit_not_whitespace h
    · have hclean : ∀ b ∈ cstring "*.:[]", isWhitespace b = false := by decide +kernel
      exact hclean b h

theorem addrPart_not_private (hprivate : p.isPrivate = false)
    (htext : p.addrPart formatForDesc = some text) : byte 'p' ∉ text := fun hmem => by
  rcases mem_addrPart hprivate htext hmem with h | h
  · exact absurd h (by decide)
  · exact absurd h (by decide)

theorem length_addrPart (h : p.FromText) (htext : p.addrPart formatForDesc = some text) :
    0 < text.length ∧ text.length ≤ 42 := by
  cases hprivate : p.isPrivate with
  | true =>
    obtain rfl := addrPart_of_private hprivate htext
    decide
  | false =>
    by_cases hzero : p.maskbits = 0
    · obtain ⟨hkind, -⟩ := parseAddress_star_printed hprivate hzero htext rfl
      rcases hkind with rfl | rfl | rfl <;> decide
    · unfold AddrPolicy.addrPart at htext
      rw [hprivate, if_neg (by decide), if_neg hzero] at htext
      have hin := h.inBits
      cases haddr : p.addr with
      | unspec =>
        rw [haddr] at htext
        cases htext
      | inet a =>
        rw [haddr] at htext
        obtain rfl := Option.some.inj htext
        have hle : (torInetNtoa a).length ≤ 15 := length_ntoa
        have hpos : 0 < (torInetNtoa a).length := by
          unfold torInetNtoa
          simp
        omega
      | inet6 words =>
        rw [haddr] at htext hin
        obtain rfl := Option.some.inj htext
        have hle := length_ntop hin
        rw [List.length_append, List.length_cons, List.length_singleton]
        omega

theorem length_maskPart (h : p.FromText) : p.maskPart.length ≤ 4 := by
  have hle : (decimal p.maskbits).length ≤ 3 := length_decimal_le (by have := h.mask6; omega) (by decide)
  unfold AddrPolicy.maskPart
  split_ifs
  all_goals
    simp only [List.length_cons, List.length_nil]
    omega

theorem length_portPart (h : p.FromText) : p.portPart.length ≤ 11 := by
  obtain ⟨-, hlo, hhi⟩ := h.ports
  have hmin : (decimal p.prtMin).length ≤ 5 := length_decimal_le (by omega) (by decide)
  have hmax : (decimal p.prtMax).length ≤ 5 := length_decimal_le (by omega) (by decide)
  unfold AddrPolicy.portPart
  split_ifs
  · decide
  · omega
  · rw [List.length_append, List.length_cons]
    omega

theorem length_word : (p.word formatForDesc).length ≤ 7 := by
  unfold AddrPolicy.word
  cases p.policyType <;> split_ifs <;> decide

/-- **A rule fits into the buffer.** -/
theorem policyWriteItem_eq {buflen : ℕ} (h : p.FromText) (hbuf : policyBufLen ≤ buflen) :
    policyWriteItem buflen p formatForDesc
      = (p.addrPart formatForDesc).map fun text =>
          p.word formatForDesc ++ byte ' ' :: p.argument text := by
  unfold policyWriteItem
  cases htext : p.addrPart formatForDesc with
  | none => rfl
  | some text =>
    have hword : (p.word formatForDesc).length ≤ 7 := length_word
    have haddr := (length_addrPart h htext).2
    have hmask := length_maskPart h
    have hport := length_portPart h
    unfold policyBufLen at hbuf
    rw [Option.bind_some, Option.map_some, if_neg]
    · unfold AddrPolicy.argument
      simp only [List.append_assoc, List.cons_append]
    · simp only [List.length_append, List.length_cons]
      omega

theorem portPart_clean {b : UInt8} (hb : b ∈ p.portPart) : isDigit b = true ∨ b ∈ cstring "*-" := by
  unfold AddrPolicy.portPart at hb
  split_ifs at hb
  · have hstar : ∀ b ∈ cstring "*", isDigit b = true ∨ b ∈ cstring "*-" := by decide +kernel
    exact hstar b hb
  · exact .inl (isDigit_of_mem_decimal hb)
  · rcases List.mem_append.mp hb with hb | hb
    · exact .inl (isDigit_of_mem_decimal hb)
    · rcases List.mem_cons.mp hb with rfl | hb
      · exact .inr (by decide)
      · exact .inl (isDigit_of_mem_decimal hb)

theorem slash_notMem_portPart : byte '/' ∉ p.portPart := fun hmem => by
  rcases portPart_clean hmem with h | h
  · exact absurd h (by decide)
  · exact absurd h (by decide)

theorem mem_maskPart {b : UInt8} (hb : b ∈ p.maskPart) : isDigit b = true ∨ b = byte '/' := by
  rw [AddrPolicy.maskPart, List.mem_ite_nil_right, List.mem_cons] at hb
  rcases hb.2 with h | h
  · exact .inr h
  · exact .inl (isDigit_of_mem_decimal h)

theorem argument_clean (htext : p.addrPart formatForDesc = some text) :
    ∀ b ∈ p.argument text, isWhitespace b = false := by
  intro b hb
  unfold AddrPolicy.argument at hb
  rw [List.mem_append, List.mem_append, List.mem_cons] at hb
  rcases hb with hb | hb | rfl | hb
  · exact addrPart_clean htext b hb
  · rcases mem_maskPart hb with h | rfl
    · exact xDigit_not_whitespace (isXDigit_of_isDigit h)
    · decide
  · decide
  · rcases portPart_clean hb with h | h
    · exact xDigit_not_whitespace (isXDigit_of_isDigit h)
    · have hclean : ∀ b ∈ cstring "*-", isWhitespace b = false := by decide +kernel
      exact hclean b h

end Line

end Dittor.Tor

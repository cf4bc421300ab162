import Mathlib
import Dittor.Tor.AddressText
import Dittor.Tor.Enforcement
import Dittor.Tor.LetterCase

/-!
# Rules in text (`policies.c`, `policy_parse.c`)

`policy_write_item` prints a rule in one of two formats: that of a configuration, where `*4` and
`*6` stand for the addresses of one family, and that of a descriptor, where `*` stands for those of
IPv4. The rules that the parsers make have an address, a mask and ports in their ranges
(`fromText_of_parse`).
-/

namespace Dittor.Tor

open Dittor.Lib

/-! ## Printing a rule -/

/-- `addrpart`; the address of no family has no text. -/
def AddrPolicy.addrPart (p : AddrPolicy) (formatForDesc : Bool) : Option Bytes :=
  if p.isPrivate then some (cstring "private")
  else if p.maskbits = 0 then
    if formatForDesc then some (cstring "*")
    else if p.addr.family = .inet6 then some (cstring "*6")
    else if p.addr.family = .inet then some (cstring "*4")
    else some (cstring "*")
  else torAddrToStr p.addr

/-- The mask, unless it is that of all addresses or of one. -/
def AddrPolicy.maskPart (p : AddrPolicy) : Bytes :=
  if p.maskbits < (if p.addr.family = .inet6 then 128 else 32) ∧ 0 < p.maskbits then
    byte '/' :: decimal p.maskbits
  else []

/-- The ports, without the colon. -/
def AddrPolicy.portPart (p : AddrPolicy) : Bytes :=
  if p.prtMin ≤ 1 ∧ p.prtMax = 65535 then cstring "*"
  else if p.prtMin = p.prtMax then decimal p.prtMin
  else decimal p.prtMin ++ byte '-' :: decimal p.prtMax

/-- The word in front. -/
def AddrPolicy.word (p : AddrPolicy) (formatForDesc : Bool) : Bytes :=
  cstring (match p.policyType with | .accept => "accept" | .reject => "reject")
    ++ if p.addr.family = .inet6 ∧ formatForDesc = true then cstring "6" else []

/-- `policy_write_item`, in a buffer of `buflen` bytes -/
def policyWriteItem (buflen : ℕ) (policy : AddrPolicy) (formatForDesc : Bool) : Option Bytes :=
  (policy.addrPart formatForDesc).bind fun addrpart =>
    let front := policy.word formatForDesc ++ byte ' ' :: (addrpart ++ policy.maskPart)
    let text := front ++ byte ':' :: policy.portPart
    if buflen ≤ text.length
        ∨ (policy.prtMin ≤ 1 ∧ policy.prtMax = 65535 ∧ buflen < front.length + 4) then none
    else some text

/-- `POLICY_BUF_LEN` -/
def policyBufLen : ℕ := 72

/-! ## Parsing a rule -/

/-- `accept`, `accept6`, `reject` or `reject6` -/
def isPolicyKeyword (tp : DirectoryKeyword) : Bool :=
  tp = .accept || tp = .accept6 || tp = .reject || tp = .reject6

/-- The line that is read: with an action in front if there is none. It has to fit into 128 bytes. -/
def policyLine (assumeAction : Option PolicyAction) (s : Bytes) : Option Bytes :=
  match assumeAction with
  | none => some s
  | some action =>
    if ∃ b ∈ s.head?, b = byte '*' ∨ b = byte '[' ∨ isDigit b = true then
      let line := cstring (match action with | .accept => "accept " | .reject => "reject ") ++ s
      if 128 ≤ line.length then none else some (line.map torTolower)
    else some s

/-- `router_parse_addr_policy_item_from_string`: the rule, and `malformed_list` -/
def routerParseAddrPolicyItemFromString (D : KeyDecoder) (s : Bytes)
    (assumeAction : Option PolicyAction) : Option AddrPolicy × Bool :=
  match policyLine assumeAction (eatWhitespace false s) with
  | none => (none, false)
  | some line =>
    match getNextToken D routerdescTokenTable line with
    | .error _ => (none, true)
    | .ok (tok, _) =>
      if isPolicyKeyword tok.tp = false then (none, true)
      else
        match routerParseAddrPolicy true tok with
        | none => (none, true)
        | some r =>
          if (tok.tp = .accept6 ∨ tok.tp = .reject6) ∧ r.addr.family ≠ .inet6 then (none, false)
          else (some r, false)

/-- The rule of the first line of a descriptor's text. -/
def descriptorRule (D : KeyDecoder) (text : Bytes) : Option AddrPolicy :=
  match getNextToken D routerdescTokenTable text with
  | .error _ => none
  | .ok (tok, _) => if isPolicyKeyword tok.tp then routerParseAddrPolicy false tok else none

/-! ## What the parsers make -/

/-- A rule as the parsers make it. -/
structure AddrPolicy.FromText (p : AddrPolicy) : Prop where
  inBits : p.addr.InBits
  ofPrivate : p.isPrivate = true → p.addr = .unspec
  ofUnspec : p.addr = .unspec → p.maskbits = 0
  mask : p.addr.family = .inet → p.maskbits ≤ 32
  mask6 : p.maskbits ≤ 128
  mapped : ∀ words, p.addr = .inet6 words → isV4Mapped words = true → 96 ≤ p.maskbits
  ports : 1 ≤ p.prtMin ∧ p.prtMin ≤ 65535 ∧ p.prtMax ≤ 65535
  range : p.prtMax = 0 ∨ p.prtMin ≤ p.prtMax

section FromText

variable {flags : StarFlags} {s : Bytes} {addr : TorAddr} {anyFlag extendedStar : Bool}
variable {bits lo hi : ℕ} {p : AddrPolicy} {tok : DirectoryToken}

/-- The flag is set for the three stars, and for no other text without a family. -/
theorem parseAddress_star (h : parseAddress flags s = some (addr, anyFlag)) :
    (anyFlag = true → addr = .unspec ∨ addr = .inet 0 ∨ addr = .inet6 nilWords)
      ∧ (addr = .unspec → anyFlag = true) := by
  unfold parseAddress at h
  split_ifs at h
  · obtain ⟨rfl, rfl⟩ := Prod.mk.inj (Option.some.inj h)
    exact ⟨fun _ => .inr (.inr rfl), fun _ => rfl⟩
  · obtain ⟨rfl, rfl⟩ := Prod.mk.inj (Option.some.inj h)
    exact ⟨fun _ => .inl rfl, fun _ => rfl⟩
  · obtain ⟨rfl, rfl⟩ := Prod.mk.inj (Option.some.inj h)
    exact ⟨fun _ => .inr (.inl rfl), fun _ => rfl⟩
  · obtain ⟨rfl, rfl⟩ := Prod.mk.inj (Option.some.inj h)
    exact ⟨fun _ => .inr (.inl rfl), fun _ => rfl⟩
  · obtain ⟨rfl, rfl⟩ := Prod.mk.inj (Option.some.inj h)
    exact ⟨fun _ => .inr (.inr rfl), fun _ => rfl⟩
  · split at h
    next =>
      obtain ⟨rfl, rfl⟩ := Prod.mk.inj (Option.some.inj h)
      exact ⟨(fun hno => nomatch hno), (fun hno => nomatch hno)⟩
    next =>
      obtain ⟨a, -, heq⟩ := Option.map_eq_some_iff.mp h
      obtain ⟨rfl, rfl⟩ := Prod.mk.inj heq
      exact ⟨(fun hno => nomatch hno), (fun hno => nomatch hno)⟩

/-- Only a star that is extended has no family. -/
theorem parseAddress_known (hflags : flags.extendedStar = false)
    (h : parseAddress flags s = some (addr, anyFlag)) : addr ≠ .unspec := by
  rintro rfl
  unfold parseAddress at h
  simp only [hflags, Bool.false_eq_true, and_false, if_false] at h
  split at h
  next => cases h
  next =>
    split at h
    next => cases h
    next =>
      obtain ⟨a, -, heq⟩ := Option.map_eq_some_iff.mp h
      cases heq

/-- The mask of an address without a family, and of a mapped one. -/
theorem maskBits_star {mask : Option Bytes} (haddr : parseAddress flags s = some (addr, anyFlag))
    (h : maskBits addr anyFlag mask = some bits) :
    (addr = .unspec → bits = 0)
      ∧ ∀ words, addr = .inet6 words → isV4Mapped words = true → 96 ≤ bits := by
  obtain ⟨hstar, hunspec⟩ := parseAddress_star haddr
  have hplain : ∀ words, addr = .inet6 words → isV4Mapped words = true → anyFlag = false := by
    rintro words rfl hmapped
    cases anyFlag with
    | false => rfl
    | true =>
      rcases hstar rfl with hno | hno | hnil
      · cases hno
      · cases hno
      · cases hnil
        exact absurd hmapped (by decide)
  cases mask with
  | none =>
    obtain rfl := Option.some.inj h
    refine ⟨fun hno => ?_, fun words hwords hmapped => ?_⟩
    · rw [hno, hunspec hno]
      rfl
    · rw [hplain words hwords hmapped, hwords]
      exact (by decide : 96 ≤ 128)
  | some mask =>
    rw [maskBits, givenMask] at h
    split at h
    next => cases h
    next hany =>
      obtain ⟨v, -, hfit⟩ := Option.bind_eq_some_iff.mp h
      refine ⟨fun hno => absurd (hunspec hno) hany, fun words hwords hmapped => ?_⟩
      rw [hwords, fitMask, if_pos hmapped] at hfit
      split at hfit
      next => cases hfit
      next =>
        obtain rfl := Option.some.inj hfit
        exact Nat.le_add_right _ _

theorem fromText_of_parse (htok : isPolicyKeyword tok.tp = true)
    (h : routerParseAddrPolicy extendedStar tok = some p) : p.FromText := by
  have hkind : tok.tp = .accept ∨ tok.tp = .accept6 ∨ tok.tp = .reject ∨ tok.tp = .reject6 := by
    simpa [isPolicyKeyword, or_assoc] using htok
  have hline : (PolicyLine.mk tok hkind extendedStar).parse = some p := h
  obtain ⟨⟨hports, hmask, hmask6⟩, -⟩ := PolicyLine.rule_of_parse hline
  obtain ⟨hlo, hlo', hhi, hzero, hplain⟩ := parsePortRange_spec hports
  have hrange : p.prtMax = 0 ∨ p.prtMin ≤ p.prtMax := by
    by_cases hport : IsPortZero (PolicyLine.mk tok hkind extendedStar).portText
    · exact .inl (hzero hport).2
    · exact .inr (hplain hport)
  unfold routerParseAddrPolicy at h
  split at h
  next arg harg =>
    split at h
    next =>
      unfold routerParseAddrPolicyPrivate at h
      split at h
      next => cases h
      next =>
        obtain ⟨ports, -, rfl⟩ := Option.map_eq_some_iff.mp h
        exact ⟨trivial, fun _ => rfl, fun _ => rfl, hmask, hmask6, (fun words hno => nomatch hno),
          ⟨hlo, hlo', hhi⟩, hrange⟩
    next =>
      obtain ⟨⟨addr, bits, lo, hi⟩, hparse, rfl⟩ := Option.map_eq_some_iff.mp h
      obtain ⟨⟨addr', bits', port⟩, hmaskParse, hrest⟩ := Option.bind_eq_some_iff.mp hparse
      obtain ⟨ports, -, heq⟩ := Option.map_eq_some_iff.mp hrest
      obtain ⟨rfl, htail⟩ := Prod.mk.inj heq
      obtain ⟨rfl, -⟩ := Prod.mk.inj htail
      unfold parseAddrMask at hmaskParse
      split at hmaskParse
      next => cases hmaskParse
      next =>
        split at hmaskParse
        next => cases hmaskParse
        next parts hparts =>
          split at hmaskParse
          next => cases hmaskParse
          next addr'' anyFlag haddr =>
            obtain ⟨bits'', hbits, hpair⟩ := Option.map_eq_some_iff.mp hmaskParse
            obtain ⟨rfl, hpair'⟩ := Prod.mk.inj hpair
            obtain ⟨rfl, -⟩ := Prod.mk.inj hpair'
            obtain ⟨hunspec, hmapped⟩ := maskBits_star haddr hbits
            exact ⟨parseAddress_inBits haddr, (fun hno => nomatch hno), hunspec, hmask, hmask6, hmapped,
              ⟨hlo, hlo', hhi⟩, hrange⟩
  next => cases h

end FromText

end Dittor.Tor

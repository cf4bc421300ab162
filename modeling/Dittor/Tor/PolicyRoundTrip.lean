import Mathlib
import Dittor.Tor.Pipeline
import Dittor.Tor.PolicyReread

/-!
# Written masks and printed rules (`address.c`, `policies.c`, `policy_parse.c`)

A printed rule is one item with one argument (`getNextToken_rule`), so what the parser of a
configuration or of a descriptor made of its own text is printed in its own format and parsed here
again (`readsBack_config_iff`, `readsBack_descriptor_iff`).

The rule is the same unless it is for port zero, whose empty range is printed as `1-0` and not
read. In a descriptor a rule for all addresses of IPv6 is printed with a `*` that is read as IPv4.
-/

namespace Dittor.Tor

open Dittor.Lib

/-! ## The rule that is read -/

section Rule

variable {D : KeyDecoder} {table : List TokenRule} {p : AddrPolicy} {formatForDesc : Bool}
variable {text arg kw : Bytes}

/-- **A keyword with one argument** at the end of a text. -/
theorem getNextToken_last {r : TokenRule} (hfind : table.find? (fun x => x.t = kw) = some r)
    (hkw : kw ≠ [] ∧ ∀ b ∈ kw, isWhitespace b = false)
    (harg : arg ≠ [] ∧ ∀ b ∈ arg, isWhitespace b = false) (hopt : kw ≠ cstring "opt")
    (hconcat : r.concatArgs = false) (hos : r.os = .noObj) (hmin : r.minArgs ≤ 1)
    (hmax : 1 ≤ r.maxArgs) (hlen : (kw ++ byte ' ' :: arg).length ≤ maxLineLength) :
    getNextToken D table (kw ++ byte ' ' :: arg) = .ok ({ tp := r.v, args := [arg] }, []) := by
  obtain ⟨k, ks, hkne⟩ := List.exists_cons_of_ne_nil hkw.1
  obtain ⟨b, bs, hbne⟩ := List.exists_cons_of_ne_nil harg.1
  have hk : isWhitespace k = false := hkw.2 k (by rw [hkne]; exact List.mem_cons_self)
  have hb : isWhitespace b = false := harg.2 b (by rw [hbne]; exact List.mem_cons_self)
  have heat : eatWhitespace false (kw ++ byte ' ' :: arg) = kw ++ byte ' ' :: arg := by
    rw [hkne, List.cons_append, eatWhitespace_cons hk]
  -- the line ends with the text
  have hnewline : ∀ x ∈ kw ++ byte ' ' :: arg, decide (x ≠ byte '\n') = true := by
    intro x hx
    refine decide_eq_true ?_
    rintro rfl
    rcases List.mem_append.mp hx with hx | hx
    · exact absurd (hkw.2 _ hx) (by decide)
    · rcases List.mem_cons.mp hx with hx | hx
      · exact absurd hx (by decide)
      · exact absurd (harg.2 _ hx) (by decide)
  have hline : lineOf (kw ++ byte ' ' :: arg) = kw ++ byte ' ' :: arg :=
    List.takeWhile_eq_self_iff.mpr hnewline
  have hafter : afterLine (kw ++ byte ' ' :: arg) = [] := List.dropWhile_eq_nil_iff.mpr hnewline
  obtain ⟨hfirst, hword⟩ := word_cut hkw.2 arg
  have hskip : skipOpt (kw ++ byte ' ' :: arg) = kw ++ byte ' ' :: arg := by
    rw [skipOpt, hfirst, if_neg hopt]
  have htoken : ruleToken r (kw ++ byte ' ' :: arg) = .ok { tp := r.v, args := [arg] } := by
    refine ruleToken_iff.mpr ⟨[arg], (ruleArguments_iff hconcat).mpr ?_, hmin, hmax, rfl⟩
    have hblank : eatBlanks (byte ' ' :: arg) = arg := by
      rw [hbne]
      exact eatBlanks_cons hb bs
    rw [hword, hblank, getTokenArguments, tokenArguments_single harg.1 harg.2]
    exact if_pos (show 1 ≤ maxArgs by decide)
  have hitem : lineToken table (kw ++ byte ' ' :: arg)
      = .ok ({ tp := r.v, args := [arg] }, r.t, r.os) := by
    rw [lineToken, hfirst, hfind]
    dsimp only
    rw [htoken]
    rfl
  rw [getNextToken_iff, heat, hline, hafter, hskip]
  refine ⟨hlen, by simp, _, _, _, none, hitem, optObject_iff.mpr (.inl ⟨rfl, rfl, rfl⟩), ?_⟩
  rw [hos]
  rfl

/-- The keyword of the word in front. -/
def AddrPolicy.keyword (p : AddrPolicy) (formatForDesc : Bool) : DirectoryKeyword :=
  match p.policyType, decide (p.addr.family = .inet6 ∧ formatForDesc = true) with
  | .accept, false => .accept
  | .accept, true => .accept6
  | .reject, false => .reject
  | .reject, true => .reject6

theorem keyword_spec : isPolicyKeyword (p.keyword formatForDesc) = true
    ∧ policyAction (p.keyword formatForDesc) = p.policyType := by
  unfold AddrPolicy.keyword
  cases p.policyType <;> cases decide (p.addr.family = .inet6 ∧ formatForDesc = true) <;> decide

/-- The printed line is one item. -/
theorem getNextToken_rule (h : p.FromText) (htext : p.addrPart formatForDesc = some text) :
    getNextToken D routerdescTokenTable (p.word formatForDesc ++ byte ' ' :: p.argument text)
      = .ok ({ tp := p.keyword formatForDesc, args := [p.argument text] }, []) := by
  have hne : p.argument text ≠ [] := by
    unfold AddrPolicy.argument
    simp
  have hlen : (p.argument text).length ≤ 58 := by
    have haddr := (length_addrPart h htext).2
    have hmask := length_maskPart h
    have hport := length_portPart h
    unfold AddrPolicy.argument
    simp only [List.length_append, List.length_cons]
    omega
  have hline : ∀ (s : String) (tp : DirectoryKeyword), (cstring s).length ≤ 7 →
      cstring s ≠ cstring "opt" → (cstring s ≠ [] ∧ ∀ b ∈ cstring s, isWhitespace b = false) →
      routerdescTokenTable.find? (fun x => x.t = cstring s)
        = some (TokenRule.t0N s tp ArgSpec.args .noObj) →
      getNextToken D routerdescTokenTable (cstring s ++ byte ' ' :: p.argument text)
        = .ok ({ tp := tp, args := [p.argument text] }, []) := by
    intro s tp hslen hopt hs hfind
    refine getNextToken_last hfind hs ⟨hne, argument_clean htext⟩ hopt rfl rfl (Nat.zero_le 1)
      (show 1 ≤ intMax by decide) ?_
    have hmaxLine : 100 ≤ maxLineLength := by decide
    rw [List.length_append, List.length_cons]
    omega
  unfold AddrPolicy.word AddrPolicy.keyword
  by_cases hsix : p.addr.family = .inet6 ∧ formatForDesc = true
  · rw [if_pos hsix, decide_eq_true hsix]
    cases p.policyType with
    | accept => exact hline "accept6" .accept6 (by decide) (by decide) (by decide +kernel) (by decide +kernel)
    | reject => exact hline "reject6" .reject6 (by decide) (by decide) (by decide +kernel) (by decide +kernel)
  · rw [if_neg hsix, decide_eq_false hsix, List.append_nil]
    cases p.policyType with
    | accept => exact hline "accept" .accept (by decide) (by decide) (by decide +kernel) (by decide +kernel)
    | reject => exact hline "reject" .reject (by decide) (by decide) (by decide +kernel) (by decide +kernel)

/-- The rule that is read where one was printed. -/
def AddrPolicy.reread (p : AddrPolicy) (formatForDesc : Bool) : AddrPolicy :=
  { p with addr := p.readAddr formatForDesc }

theorem maskPart_nil (hzero : p.maskbits = 0) : p.maskPart = [] := if_neg fun hno => by omega

theorem privateRule_printed (h : p.FromText) (hprivate : p.isPrivate = true)
    (htext : p.addrPart formatForDesc = some text) :
    routerParseAddrPolicyPrivate (p.keyword formatForDesc) (p.argument text)
      = if p.prtMax = 0 then none else some (p.reread formatForDesc) := by
  have haddr := h.ofPrivate hprivate
  have hzero := h.ofUnspec haddr
  obtain rfl := addrPart_of_private hprivate htext
  have hport : privatePort (p.argument (cstring "private")) = some p.portPart := by
    have hdrop : (p.argument (cstring "private")).drop 7 = byte ':' :: p.portPart := by
      rw [AddrPolicy.argument, maskPart_nil hzero, List.nil_append]
      exact List.drop_left' (by decide)
    rw [privatePort, hdrop, eatWhitespace_cons (by decide)]
    exact if_pos rfl
  rw [routerParseAddrPolicyPrivate, hport]
  dsimp only
  rw [parsePortRange_printed h]
  split_ifs with hempty
  · rfl
  · rw [Option.map_some, keyword_spec.2, AddrPolicy.reread, AddrPolicy.readAddr,
      if_neg fun hno => by rw [hprivate] at hno; cases hno.1]
    cases p
    subst haddr hzero hprivate
    rfl

/-- **The rule is read back** from its argument. -/
theorem routerParseAddrPolicy_printed (h : p.FromText)
    (htext : p.addrPart formatForDesc = some text) :
    routerParseAddrPolicy (!formatForDesc)
        { tp := p.keyword formatForDesc, args := [p.argument text] }
      = if p.prtMax = 0 then none else some (p.reread formatForDesc) := by
  rw [routerParseAddrPolicy]
  dsimp only
  cases hprivate : p.isPrivate with
  | true =>
    have hpre : (cstring "private").isPrefixOf (p.argument text) = true := by
      obtain rfl := addrPart_of_private hprivate htext
      exact List.isPrefixOf_iff_prefix.mpr (List.prefix_append _ _)
    rw [if_pos hpre, privateRule_printed h hprivate htext]
  | false =>
    have hpre : ¬ (cstring "private").isPrefixOf (p.argument text) = true := by
      intro hpre
      obtain ⟨b, bs, rfl⟩ := List.exists_cons_of_length_pos (length_addrPart h htext).1
      have hb : byte 'p' = b := by
        have hpair := List.isPrefixOf_iff_prefix.mp hpre
        exact (List.cons_prefix_cons.mp hpair).1
      exact addrPart_not_private hprivate htext (hb ▸ List.mem_cons_self)
    have hflags : fmtFlags (!formatForDesc) (p.keyword formatForDesc)
        = { extendedStar := !formatForDesc, starIpv6Only := false } := by
      unfold fmtFlags AddrPolicy.keyword
      cases formatForDesc with
      | true => rfl
      | false => cases p.policyType <;> simp
    have hlen : (text ++ (p.maskPart ++ byte ':' :: p.portPart)).length ≤ maxAddressLength := by
      have haddr := (length_addrPart h htext).2
      have hmask := length_maskPart h
      have hport := length_portPart h
      have hmax : 80 ≤ maxAddressLength := by decide
      simp only [List.length_append, List.length_cons]
      omega
    have hparse := parseAddrMask_printed h hprivate htext hflags slash_notMem_portPart hlen
    rw [if_neg hpre, torAddrParseMaskPorts, AddrPolicy.argument, hparse, Option.bind_some]
    dsimp only
    rw [parsePortRange_printed h]
    split_ifs with hempty
    · rfl
    · rw [Option.map_some, Option.map_some, keyword_spec.2, AddrPolicy.reread]
      cases p
      subst hprivate
      rfl

theorem descriptorRule_printed (h : p.FromText) (htext : p.addrPart true = some text) :
    descriptorRule D (p.word true ++ byte ' ' :: p.argument text)
      = if p.prtMax = 0 then none else some (p.reread true) := by
  rw [descriptorRule, getNextToken_rule h htext]
  dsimp only
  rw [if_pos keyword_spec.1]
  exact routerParseAddrPolicy_printed h htext

/-- A printed line is taken as it is. -/
theorem policyLine_printed (assumeAction : Option PolicyAction) :
    policyLine assumeAction
        (eatWhitespace false (p.word formatForDesc ++ byte ' ' :: p.argument text))
      = some (p.word formatForDesc ++ byte ' ' :: p.argument text) := by
  obtain ⟨b, bs, hword, hb⟩ : ∃ b bs, p.word formatForDesc = b :: bs
      ∧ (b = byte 'a' ∨ b = byte 'r') := by
    unfold AddrPolicy.word
    cases p.policyType with
    | accept => exact ⟨_, _, rfl, .inl rfl⟩
    | reject => exact ⟨_, _, rfl, .inr rfl⟩
  have hplain : isWhitespace b = false ∧ b ≠ byte '*' ∧ b ≠ byte '[' ∧ isDigit b = false := by
    rcases hb with rfl | rfl <;> decide
  obtain ⟨hclean, hstar, hopen, hdigit⟩ := hplain
  rw [hword, List.cons_append, eatWhitespace_cons hclean]
  cases assumeAction with
  | none => rfl
  | some action =>
    refine if_neg ?_
    rintro ⟨x, hx, hno⟩
    obtain rfl := Option.some.inj hx
    rcases hno with h | h | h
    · exact hstar h
    · exact hopen h
    · rw [hdigit] at h
      cases h

theorem policyItem_printed (h : p.FromText) (htext : p.addrPart false = some text)
    (assumeAction : Option PolicyAction) :
    (routerParseAddrPolicyItemFromString D (p.word false ++ byte ' ' :: p.argument text)
        assumeAction).1
      = if p.prtMax = 0 then none else some (p.reread false) := by
  have hsix : ¬ (p.keyword false = .accept6 ∨ p.keyword false = .reject6) := by
    unfold AddrPolicy.keyword
    cases p.policyType <;> simp
  rw [routerParseAddrPolicyItemFromString, policyLine_printed]
  dsimp only
  rw [getNextToken_rule h htext]
  dsimp only
  rw [if_neg (by rw [keyword_spec.1]; decide)]
  have hread : routerParseAddrPolicy true { tp := p.keyword false, args := [p.argument text] }
      = if p.prtMax = 0 then none else some (p.reread false) := routerParseAddrPolicy_printed h htext
  rw [hread]
  split_ifs with hempty
  · rfl
  · dsimp only
    rw [if_neg fun hno => hsix hno.1]

end Rule

/-! ## Printing and reading -/

section ReadsBack

variable {D : KeyDecoder} {p q : AddrPolicy} {formatForDesc : Bool} {buflen : ℕ}
variable {read : Bytes → Option AddrPolicy} {x : TorAddr × ℕ}

/-- The rules that a rule stands for. -/
def AddrPolicy.expanded (p : AddrPolicy) : List AddrPolicy :=
  policyExpandUnspec (policyExpandPrivate [p])

/-- The same verdict for the same addresses and ports, also of the rules that it stands for. -/
structure SameRule (q p : AddrPolicy) : Prop where
  verdict : q.policyType = p.policyType
  covers : ∀ x, q.covers x = p.covers x
  expanded : ∀ x, q.expanded.any (fun r => r.covers x) = p.expanded.any fun r => r.covers x

/-- What was printed is read as the same rule. -/
def ReadsBack (read : Bytes → Option AddrPolicy) (text : Option Bytes) (p : AddrPolicy) : Prop :=
  ∃ t q, text = some t ∧ read t = some q ∧ SameRule q p

/-- The rule for all addresses of IPv6. -/
def AddrPolicy.allIpv6 (p : AddrPolicy) : Bool := p.addr.family = .inet6 ∧ p.maskbits = 0

theorem exists_addrPart (h : p.FromText) : ∃ text, p.addrPart formatForDesc = some text := by
  unfold AddrPolicy.addrPart
  split_ifs with hprivate hzero
  · exact ⟨_, rfl⟩
  · exact ⟨_, rfl⟩
  · exact ⟨_, rfl⟩
  · exact ⟨_, rfl⟩
  · exact ⟨_, rfl⟩
  · cases haddr : p.addr with
    | unspec => exact absurd (h.ofUnspec haddr) hzero
    | inet a => exact ⟨_, rfl⟩
    | inet6 words => exact ⟨_, rfl⟩

/-- Without a mask the family is all that counts. -/
theorem covers_zero (hzero : p.maskbits = 0) :
    p.covers x = (decide (x.1.family = p.addr.family) && p.coversPort x.2) := by
  rw [AddrPolicy.covers, AddrPolicy.coversAddr, hzero]
  congr 1
  exact decide_eq_decide.mpr compareMasked_zero

theorem sameRule_of_family (htype : q.policyType = p.policyType)
    (hprivate : q.isPrivate = false ∧ p.isPrivate = false) (hmask : q.maskbits = 0 ∧ p.maskbits = 0)
    (hmin : q.prtMin = p.prtMin) (hmax : q.prtMax = p.prtMax)
    (hfamily : q.addr.family = p.addr.family) (hknown : p.addr.family ≠ .unspec) : SameRule q p := by
  have hcovers : ∀ x, q.covers x = p.covers x := by
    intro x
    rw [covers_zero hmask.1, covers_zero hmask.2, hfamily, AddrPolicy.coversPort,
      AddrPolicy.coversPort, hmin, hmax]
  have halone : ∀ r : AddrPolicy, r.isPrivate = false → r.addr.family ≠ .unspec → r.expanded = [r] := by
    intro r hr hne
    simp [AddrPolicy.expanded, policyExpandPrivate, policyExpandUnspec, hr, hne]
  refine ⟨htype, hcovers, fun x => ?_⟩
  rw [halone q hprivate.1 (hfamily ▸ hknown), halone p hprivate.2 hknown]
  simp only [List.any_cons, List.any_nil, hcovers]

theorem unspec_of_family {a : TorAddr} (h : a.family = .unspec) : a = .unspec := by
  cases a with
  | unspec => rfl
  | inet a => cases h
  | inet6 words => cases h

theorem sameRule_refl : SameRule p p := ⟨rfl, fun _ => rfl, fun _ => rfl⟩

/-- **The rule that is read is the same**, if a star is read as the family it was printed for. -/
theorem sameRule_reread (hfamily : p.isPrivate = false → p.maskbits = 0 →
    (p.readAddr formatForDesc).family = p.addr.family) : SameRule (p.reread formatForDesc) p := by
  by_cases hstar : p.isPrivate = false ∧ p.maskbits = 0
  · have hsame := hfamily hstar.1 hstar.2
    by_cases hknown : p.addr.family = .unspec
    · have hread : p.readAddr formatForDesc = p.addr :=
        (unspec_of_family (hsame.trans hknown)).trans (unspec_of_family hknown).symm
      rw [AddrPolicy.reread, hread]
      exact sameRule_refl
    · exact sameRule_of_family rfl ⟨hstar.1, hstar.1⟩ ⟨hstar.2, hstar.2⟩ rfl rfl hsame hknown
  · rw [AddrPolicy.reread, AddrPolicy.readAddr, if_neg hstar]
    exact sameRule_refl

theorem readsBack_iff {same : Prop} (h : p.FromText) (hbuf : policyBufLen ≤ buflen)
    (hread : ∀ text, p.addrPart formatForDesc = some text →
      read (p.word formatForDesc ++ byte ' ' :: p.argument text)
        = if p.prtMax = 0 then none else some (p.reread formatForDesc))
    (hsame : p.prtMax ≠ 0 → (SameRule (p.reread formatForDesc) p ↔ same)) :
    ReadsBack read (policyWriteItem buflen p formatForDesc) p ↔ p.prtMax ≠ 0 ∧ same := by
  obtain ⟨text, htext⟩ : ∃ text, p.addrPart formatForDesc = some text := exists_addrPart h
  rw [policyWriteItem_eq h hbuf, htext, Option.map_some]
  constructor
  · rintro ⟨t, q, ht, hq, hrule⟩
    obtain rfl := Option.some.inj ht
    rw [hread text htext] at hq
    split_ifs at hq with hempty
    obtain rfl := Option.some.inj hq
    exact ⟨hempty, (hsame hempty).mp hrule⟩
  · rintro ⟨hempty, hrule⟩
    refine ⟨_, _, rfl, ?_, (hsame hempty).mpr hrule⟩
    rw [hread text htext, if_neg hempty]

/-- **A rule of a configuration is read back** unless it is for port zero. -/
theorem readsBack_config_iff (h : p.FromText) (hbuf : policyBufLen ≤ buflen)
    (assumeAction : Option PolicyAction) :
    ReadsBack (fun t => (routerParseAddrPolicyItemFromString D t assumeAction).1)
        (policyWriteItem buflen p false) p ↔ p.prtMax ≠ 0 := by
  rw [readsBack_iff h hbuf fun text htext => policyItem_printed h htext assumeAction]
  · exact and_iff_left trivial
  · refine fun _ => iff_true_intro (sameRule_reread fun hprivate hzero => ?_)
    rw [AddrPolicy.readAddr, if_pos ⟨hprivate, hzero⟩, if_neg (by decide)]
    cases p.addr <;> rfl

/-- **A rule of a descriptor is read back** unless it is for port zero or for all of IPv6. -/
theorem readsBack_descriptor_iff (h : p.FromText) (hknown : p.isPrivate = false → p.addr ≠ .unspec)
    (hbuf : policyBufLen ≤ buflen) :
    ReadsBack (descriptorRule D) (policyWriteItem buflen p true) p
      ↔ p.prtMax ≠ 0 ∧ p.allIpv6 = false := by
  refine readsBack_iff h hbuf (fun text htext => descriptorRule_printed h htext) fun hports => ?_
  constructor
  · intro hrule
    refine Bool.eq_false_iff.mpr fun hall => ?_
    obtain ⟨hsix, hzero⟩ := of_decide_eq_true hall
    have hprivate : p.isPrivate = false := by
      refine Bool.eq_false_iff.mpr fun hprivate => ?_
      rw [h.ofPrivate hprivate] at hsix
      cases hsix
    -- the first port of the address that is all zero
    have hcovers := hrule.covers (.inet6 nilWords, p.prtMin)
    have hport : p.coversPort p.prtMin = true := by
      rw [AddrPolicy.coversPort, Bool.and_eq_true, decide_eq_true_iff, decide_eq_true_iff]
      exact ⟨le_rfl, h.range.resolve_left hports⟩
    have hread : (p.reread true).addr = .inet 0 := if_pos ⟨hprivate, hzero⟩
    have hport' : (p.reread true).coversPort p.prtMin = true := hport
    rw [covers_zero hzero, covers_zero (show (p.reread true).maskbits = 0 from hzero), hread, hsix,
      hport, hport'] at hcovers
    exact absurd hcovers (show ¬ (false && true) = (true && true) by decide)
  · intro hall
    refine sameRule_reread fun hprivate hzero => ?_
    rw [AddrPolicy.readAddr, if_pos ⟨hprivate, hzero⟩, if_pos rfl]
    have hsix : p.addr.family ≠ .inet6 := fun hsix =>
      Bool.eq_false_iff.mp hall (decide_eq_true ⟨hsix, hzero⟩)
    cases haddr : p.addr with
    | unspec => exact absurd haddr (hknown hprivate)
    | inet a => rfl
    | inet6 words =>
      rw [haddr] at hsix
      exact absurd rfl hsix

end ReadsBack

/-! ## Masks and rules -/

section Written

/-- A pattern for which `tor_addr_parse_mask_ports` gives an address and the bits of its mask, with
room for ports or without. -/
def Accepts (flags : StarFlags) (s : Bytes) (addr : TorAddr) (maskbits : ℕ) : Prop :=
  (∃ ports, torAddrParseMaskPorts flags s = some (addr, maskbits, ports))
    ∨ flags = {} ∧ torAddrParseMask s = some (addr, maskbits)

/-- The address as it is written. -/
def WrittenAddr (flags : StarFlags) (s : Bytes) (addr : TorAddr) : Prop :=
  ∃ parts anyFlag, splitAddr s = some parts ∧ parseAddress flags parts.address = some (addr, anyFlag)

variable {flags : StarFlags} {s : Bytes} {addr written : TorAddr} {maskbits : ℕ}

theorem Accepts.parse (h : Accepts flags s addr maskbits) :
    ∃ port, parseAddrMask flags s = some (addr, maskbits, port) := by
  rcases h with ⟨ports, hports⟩ | ⟨rfl, hmask⟩
  · obtain ⟨⟨addr', bits, port⟩, hparse, hrest⟩ := Option.bind_eq_some_iff.mp hports
    obtain ⟨r, -, heq⟩ := Option.map_eq_some_iff.mp hrest
    obtain ⟨rfl, htail⟩ := Prod.mk.inj heq
    obtain ⟨rfl, -⟩ := Prod.mk.inj htail
    exact ⟨port, hparse⟩
  · obtain ⟨⟨addr', bits, port⟩, hparse, hrest⟩ := Option.bind_eq_some_iff.mp hmask
    split at hrest
    next => cases hrest
    next =>
      obtain ⟨rfl, rfl⟩ := Prod.mk.inj (Option.some.inj hrest)
      exact ⟨port, hparse⟩

/-- The address that is given is the one that is written. -/
theorem Accepts.addr_eq (h : Accepts flags s addr maskbits) (hw : WrittenAddr flags s written) :
    written = addr := by
  obtain ⟨port, hparse⟩ := h.parse
  obtain ⟨parts, anyFlag, hsplit, hread⟩ := hw
  unfold parseAddrMask at hparse
  split at hparse
  next => cases hparse
  next =>
    rw [hsplit] at hparse
    dsimp only at hparse
    rw [hread] at hparse
    obtain ⟨bits, -, heq⟩ := Option.map_eq_some_iff.mp hparse
    exact (Prod.mk.inj heq).1

/-- What a descriptor's parser makes of a `*` has a family. -/
theorem descriptor_known {tok : DirectoryToken} {p : AddrPolicy}
    (h : routerParseAddrPolicy false tok = some p) (hprivate : p.isPrivate = false) :
    p.addr ≠ .unspec := by
  unfold routerParseAddrPolicy at h
  split at h
  next arg harg =>
    split at h
    next =>
      unfold routerParseAddrPolicyPrivate at h
      split at h
      next => cases h
      next =>
        obtain ⟨ports, -, rfl⟩ := Option.map_eq_some_iff.mp h
        cases hprivate
    next =>
      obtain ⟨⟨addr, bits, ports⟩, hparse, rfl⟩ := Option.map_eq_some_iff.mp h
      obtain ⟨port, hmask⟩ := Accepts.parse (.inl ⟨ports, hparse⟩)
      unfold parseAddrMask at hmask
      split at hmask
      next => cases hmask
      next =>
        split at hmask
        next => cases hmask
        next parts hparts =>
          split at hmask
          next => cases hmask
          next addr' anyFlag haddr =>
            obtain ⟨bits', -, heq⟩ := Option.map_eq_some_iff.mp hmask
            obtain ⟨rfl, -⟩ := Prod.mk.inj heq
            exact parseAddress_known rfl haddr
  next => cases h

/-- A rule of a configuration is made by the parser of rules. -/
theorem fromText_of_item {D : KeyDecoder} {assumeAction : Option PolicyAction} {p : AddrPolicy}
    (h : (routerParseAddrPolicyItemFromString D s assumeAction).1 = some p) : p.FromText := by
  unfold routerParseAddrPolicyItemFromString at h
  split at h
  next => cases h
  next =>
    split at h
    next => cases h
    next tok _ _ =>
      split at h
      next => cases h
      next hkind =>
        split at h
        next => cases h
        next r hrule =>
          split at h
          next => cases h
          next =>
            obtain rfl := Option.some.inj h
            exact fromText_of_parse (Bool.not_eq_false _ ▸ hkind) hrule

/-- **Written masks and printed rules.** A mask of `m` bits matches the addresses with the same
first bits exactly if it is taken as it is written. And what a parser of rules makes of a text is
printed and read back as the same rule, unless its range of ports is empty or it is a descriptor's
rule for all of IPv6. -/
theorem written_masks_and_printed_rules (D : KeyDecoder) :
    (∀ flags s addr maskbits written m, Accepts flags s addr maskbits →
      WrittenAddr flags s written → WrittenMask s m →
        ((∀ a : TorAddr, a.InBits → (torAddrCompareMasked a addr maskbits = 0 ↔
            a.family = written.family ∧ SharesBits (meantBits written m) a written))
          ↔ MaskKept written m))
      ∧ (∀ s assumeAction p, (routerParseAddrPolicyItemFromString D s assumeAction).1 = some p →
        ∀ buflen, policyBufLen ≤ buflen → ∀ assumeAction',
          (ReadsBack (fun t => (routerParseAddrPolicyItemFromString D t assumeAction').1)
              (policyWriteItem buflen p false) p ↔ p.prtMax ≠ 0))
      ∧ ∀ tok p, isPolicyKeyword tok.tp = true → routerParseAddrPolicy false tok = some p →
        ∀ buflen, policyBufLen ≤ buflen →
          (ReadsBack (descriptorRule D) (policyWriteItem buflen p true) p
            ↔ p.prtMax ≠ 0 ∧ p.allIpv6 = false) := by
  refine ⟨fun flags s addr maskbits written m haccepts hwritten hmask => ?_,
    fun s assumeAction p hitem buflen hbuf assumeAction' => ?_,
    fun tok p hkind hrule buflen hbuf => ?_⟩
  · obtain rfl := haccepts.addr_eq hwritten
    obtain ⟨port, hparse⟩ := haccepts.parse
    exact matchesFirst_written_iff hparse hmask
  · exact readsBack_config_iff (fromText_of_item hitem) hbuf assumeAction'
  · exact readsBack_descriptor_iff (fromText_of_parse hkind hrule) (descriptor_known hrule) hbuf

/-- The mask 32 of the mapped address in `[::ffff:1.2.3.4]/32` matches every mapped address, and
the rule `accept *4:0` is printed as a text that is not read. -/
theorem mapped_mask_and_port_zero :
    (¬ ∀ flags s addr maskbits written m, Accepts flags s addr maskbits →
      WrittenAddr flags s written → WrittenMask s m →
        ∀ a : TorAddr, a.InBits → (torAddrCompareMasked a addr maskbits = 0 ↔
          a.family = written.family ∧ SharesBits (meantBits written m) a written))
      ∧ ¬ ∀ (D : KeyDecoder) s assumeAction p,
        (routerParseAddrPolicyItemFromString D s assumeAction).1 = some p →
          ReadsBack (fun t => (routerParseAddrPolicyItemFromString D t assumeAction).1)
            (policyWriteItem policyBufLen p false) p := by
  refine ⟨fun hall => ?_, fun hall => ?_⟩
  · let written : TorAddr := .inet6 [0, 0, 0, 0, 0, 65535, 258, 772]
    have haccepts : Accepts {} (cstring "[::ffff:1.2.3.4]/32") written 96 :=
      .inl ⟨(1, 65535), by decide⟩
    have hwritten : WrittenAddr {} (cstring "[::ffff:1.2.3.4]/32") written :=
      ⟨⟨cstring "::ffff:1.2.3.4", some (cstring "32"), none⟩, false, rfl, by decide⟩
    have hmask : WrittenMask (cstring "[::ffff:1.2.3.4]/32") 32 :=
      ⟨⟨cstring "::ffff:1.2.3.4", some (cstring "32"), none⟩, cstring "32", rfl, rfl,
        .inl (by decide)⟩
    -- the last bit is another one
    have hother := (hall _ _ _ _ _ _ haccepts hwritten hmask (.inet6 [0, 0, 0, 0, 0, 65535, 258, 773])
      (by unfold TorAddr.InBits; decide)).mp (by decide)
    exact absurd (hother.2 127 (by decide)) (by decide)
  · have hrule : (routerParseAddrPolicyItemFromString (fun _ => none) (cstring "accept *4:0") none).1
        = some ⟨.accept, false, 0, .inet 0, 1, 0⟩ := by decide +kernel
    exact (readsBack_config_iff (fromText_of_item hrule) le_rfl none).mp (hall _ _ _ _ hrule) rfl

end Written

end Dittor.Tor

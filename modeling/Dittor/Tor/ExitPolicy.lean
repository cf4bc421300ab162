import Mathlib
import Dittor.Tor.Address
import Dittor.Tor.TokenTable

/-!
# Rules of exit policies (`policy_parse.c`, `policies.c`, `routerparse.c`)

A line `accept` or `reject` with one argument becomes a rule. `private` stands for the networks
of `private_nets` and `*`, in a configuration, for both families; the two are expanded behind the
parser. Whatever a rule was expanded from, its ports are those that the text of the line says
(`PolicyLine.Rule`). A descriptor's policy is one of these policies (`descriptor_policy`).
-/

namespace Dittor.Tor

open Dittor.Lib

/-! ## Rules -/

/-- `addr_policy_action_t` -/
inductive PolicyAction where
  | accept | reject
deriving DecidableEq, Repr

/-- `addr_policy_t`; the canonical copy of a rule is the rule. -/
structure AddrPolicy where
  policyType : PolicyAction
  isPrivate : Bool
  maskbits : ℕ
  addr : TorAddr
  prtMin : ℕ
  prtMax : ℕ
deriving DecidableEq, Repr

/-- `private_nets` -/
def privateNets : List Bytes :=
  ["0.0.0.0/8", "169.254.0.0/16", "127.0.0.0/8", "192.168.0.0/16", "10.0.0.0/8", "172.16.0.0/12",
    "[::]/8", "[fc00::]/7", "[fe80::]/10", "[fec0::]/10", "[ff00::]/8", "[::]/127"].map cstring

/-- `policy_type` -/
def policyAction (tp : DirectoryKeyword) : PolicyAction :=
  if tp = .reject ∨ tp = .reject6 then .reject else .accept

/-- The ports of an argument that begins with `private`. -/
def privatePort (arg : Bytes) : Option Bytes :=
  match eatWhitespace false (arg.drop 7) with
  | [] => none
  | b :: port => if b = byte ':' then some port else none

/-- `router_parse_addr_policy_private` -/
def routerParseAddrPolicyPrivate (tp : DirectoryKeyword) (arg : Bytes) : Option AddrPolicy :=
  match privatePort arg with
  | none => none
  | some port =>
    (parsePortRange (some port)).map fun ports =>
      { policyType := policyAction tp
        isPrivate := true
        maskbits := 0
        addr := .unspec
        prtMin := ports.1
        prtMax := ports.2 }

/-- `fmt_flags`, for a policy of a descriptor or of a configuration -/
def fmtFlags (extendedStar : Bool) (tp : DirectoryKeyword) : StarFlags where
  extendedStar := extendedStar
  starIpv6Only := extendedStar && (tp = .accept6 || tp = .reject6)

/-- `router_parse_addr_policy` -/
def routerParseAddrPolicy (extendedStar : Bool) (tok : DirectoryToken) : Option AddrPolicy :=
  match tok.args with
  | [arg] =>
    if (cstring "private").isPrefixOf arg then routerParseAddrPolicyPrivate tok.tp arg
    else
      (torAddrParseMaskPorts (fmtFlags extendedStar tok.tp) arg).map fun r =>
        { policyType := policyAction tok.tp
          isPrivate := false
          maskbits := r.2.1
          addr := r.1
          prtMin := r.2.2.1
          prtMax := r.2.2.2 }
  | _ => none

/-! ## Expansion -/

/-- A rule for each private network. All of them can be read (`privateNets_parse`), so the
assertion on that is left out. -/
def privateRules (p : AddrPolicy) : List AddrPolicy :=
  privateNets.filterMap fun net => (torAddrParseMaskPorts {} net).map fun r =>
    { p with isPrivate := false, addr := r.1, maskbits := r.2.1 }

/-- `policy_expand_private` -/
def policyExpandPrivate (policy : List AddrPolicy) : List AddrPolicy :=
  policy.flatMap fun p => if p.isPrivate then privateRules p else [p]

/-- `policy_expand_unspec` -/
def policyExpandUnspec (policy : List AddrPolicy) : List AddrPolicy :=
  policy.flatMap fun p =>
    if p.addr.family = .unspec ∧ p.isPrivate = false then
      [{ p with maskbits := 0, addr := .inet 0 }, { p with maskbits := 0, addr := .inet6 nilWords }]
    else [p]

theorem privateNets_parse :
    ∀ net ∈ privateNets, (torAddrParseMaskPorts {} net).isSome = true
      ∧ (torAddrParseMask net).isSome = true := by
  decide

/-! ## Lines -/

/-- A line of a policy, and whether it stands in a configuration. -/
structure PolicyLine where
  tok : DirectoryToken
  isPolicy : tok.tp = .accept ∨ tok.tp = .accept6 ∨ tok.tp = .reject ∨ tok.tp = .reject6
  extendedStar : Bool

namespace PolicyLine

/-- Its rule. -/
def parse (line : PolicyLine) : Option AddrPolicy :=
  routerParseAddrPolicy line.extendedStar line.tok

/-- Its rules, expanded. -/
def rules (line : PolicyLine) : List AddrPolicy :=
  policyExpandUnspec (policyExpandPrivate line.parse.toList)

/-- The text of its ports. -/
def portText (line : PolicyLine) : Option Bytes :=
  line.tok.args.head?.bind fun arg =>
    if (cstring "private").isPrefixOf arg then privatePort arg
    else (splitAddr arg).bind AddrParts.port

/-- What holds of a rule of the line. -/
structure Rule (line : PolicyLine) (p : AddrPolicy) : Prop where
  ports : parsePortRange line.portText = some (p.prtMin, p.prtMax)
  mask : p.addr.family = .inet → p.maskbits ≤ 32
  mask6 : p.maskbits ≤ 128

end PolicyLine

/-- A policy from its lines; a smartlist has room for `INT_MAX` rules. -/
def producePolicy (lines : List PolicyLine) : Option (List AddrPolicy) := do
  let rules ← lines.mapM PolicyLine.parse
  let policy := policyExpandUnspec (policyExpandPrivate rules)
  guard (policy.length ≤ intMax)
  return policy

section Facts

theorem addrMaskGetBits_le {mask bits : ℕ} (h : addrMaskGetBits mask = some bits) : bits ≤ 32 := by
  unfold addrMaskGetBits at h
  split at h
  next =>
    obtain rfl := Option.some.inj h
    exact Nat.zero_le _
  next =>
    split at h
    next =>
      obtain rfl := Option.some.inj h
      exact le_rfl
    next =>
      have hmem := List.mem_range'_1.mp (List.mem_of_find?_eq_some h)
      omega

theorem maskValue_le {family : Family} {mask : Bytes} {bits : ℕ}
    (h : maskValue family mask = some bits) : (family = .inet → bits ≤ 32) ∧ bits ≤ 128 := by
  unfold maskValue at h
  split at h
  next number hnumber =>
    split at h
    next => cases h
    next hrange =>
      obtain rfl := Option.some.inj h
      refine ⟨fun hinet => ?_, by omega⟩
      have : ¬ (32 < number) := fun hlarge => hrange (.inr (.inr ⟨hinet, hlarge⟩))
      omega
  next =>
    obtain ⟨a, -, hbits⟩ := Option.bind_eq_some_iff.mp h
    have hle := addrMaskGetBits_le hbits
    exact ⟨fun _ => hle, by omega⟩

/-- A mask fits its address. -/
theorem maskBits_le {addr : TorAddr} {anyFlag : Bool} {mask : Option Bytes} {bits : ℕ}
    (h : maskBits addr anyFlag mask = some bits) :
    (addr.family = .inet → bits ≤ 32) ∧ bits ≤ 128 := by
  cases mask with
  | none =>
    obtain rfl := Option.some.inj h
    cases addr <;> cases anyFlag <;> simp [defaultMask, TorAddr.family]
  | some mask =>
    rw [maskBits, givenMask] at h
    split at h
    next => cases h
    next =>
      obtain ⟨value, hvalue, hfit⟩ := Option.bind_eq_some_iff.mp h
      have hle := maskValue_le hvalue
      cases addr with
      | unspec => exact Option.some.inj hfit ▸ hle
      | inet a => exact Option.some.inj hfit ▸ hle
      | inet6 words =>
        refine ⟨fun hinet => (by cases hinet), ?_⟩
        rw [fitMask] at hfit
        split at hfit
        next =>
          split at hfit
          next => cases hfit
          next =>
            obtain rfl := Option.some.inj hfit
            omega
        next => exact Option.some.inj hfit ▸ hle.2

theorem parseAddrMask_spec {flags : StarFlags} {s : Bytes} {addr : TorAddr} {bits : ℕ}
    {port : Option Bytes} (h : parseAddrMask flags s = some (addr, bits, port)) :
    (addr.family = .inet → bits ≤ 32) ∧ bits ≤ 128
      ∧ (splitAddr s).bind AddrParts.port = port
      ∧ (flags.extendedStar = false → addr.family ≠ .unspec) := by
  unfold parseAddrMask at h
  split at h
  next => cases h
  next =>
    split at h
    next => cases h
    next parts hparts =>
      split at h
      next => cases h
      next addr' anyFlag haddr =>
        obtain ⟨bits', hbits, heq⟩ := Option.map_eq_some_iff.mp h
        obtain ⟨rfl, hrest⟩ := Prod.mk.inj heq
        obtain ⟨rfl, rfl⟩ := Prod.mk.inj hrest
        refine ⟨(maskBits_le hbits).1, (maskBits_le hbits).2, by rw [hparts]; rfl, fun hplain => ?_⟩
        -- a star of both families only exists with the flag
        unfold parseAddress at haddr
        rw [hplain] at haddr
        simp only [Bool.false_eq_true, if_false, and_false] at haddr
        split at haddr
        next =>
          obtain ⟨rfl, -⟩ := Prod.mk.inj (Option.some.inj haddr)
          exact fun hno => nomatch hno
        next =>
          split at haddr
          next =>
            obtain ⟨rfl, -⟩ := Prod.mk.inj (Option.some.inj haddr)
            exact fun hno => nomatch hno
          next =>
            obtain ⟨a, -, heq⟩ := Option.map_eq_some_iff.mp haddr
            obtain ⟨rfl, -⟩ := Prod.mk.inj heq
            exact fun hno => nomatch hno

theorem torAddrParseMaskPorts_spec {flags : StarFlags} {s : Bytes} {addr : TorAddr}
    {bits lo hi : ℕ} (h : torAddrParseMaskPorts flags s = some (addr, bits, lo, hi)) :
    (addr.family = .inet → bits ≤ 32) ∧ bits ≤ 128
      ∧ parsePortRange ((splitAddr s).bind AddrParts.port) = some (lo, hi)
      ∧ (flags.extendedStar = false → addr.family ≠ .unspec) := by
  obtain ⟨⟨addr', bits', port⟩, hparse, h⟩ := Option.bind_eq_some_iff.mp h
  obtain ⟨ports, hports, heq⟩ := Option.map_eq_some_iff.mp h
  obtain ⟨rfl, hrest⟩ := Prod.mk.inj heq
  obtain ⟨rfl, rfl⟩ := Prod.mk.inj hrest
  obtain ⟨hmask, hmask6, rfl, hfamily⟩ := parseAddrMask_spec hparse
  exact ⟨hmask, hmask6, hports, hfamily⟩

/-- The parser's own rule. -/
theorem PolicyLine.rule_of_parse {line : PolicyLine} {p : AddrPolicy}
    (h : line.parse = some p) :
    line.Rule p ∧ (p.isPrivate = false → line.extendedStar = false → p.addr.family ≠ .unspec) := by
  unfold PolicyLine.parse routerParseAddrPolicy at h
  split at h
  next arg harg =>
    have htext : line.portText = if (cstring "private").isPrefixOf arg then privatePort arg
        else (splitAddr arg).bind AddrParts.port := by
      rw [PolicyLine.portText, harg]
      rfl
    split at h
    next hprivate =>
      rw [if_pos hprivate] at htext
      unfold routerParseAddrPolicyPrivate at h
      split at h
      next => cases h
      next port hport =>
        obtain ⟨ports, hports, rfl⟩ := Option.map_eq_some_iff.mp h
        refine ⟨⟨?_, (fun hno => nomatch hno), Nat.zero_le _⟩, (fun hno => nomatch hno)⟩
        rw [htext, hport]
        exact hports
    next hprivate =>
      rw [if_neg hprivate] at htext
      obtain ⟨⟨addr, bits, lo, hi⟩, hparse, rfl⟩ := Option.map_eq_some_iff.mp h
      obtain ⟨hmask, hmask6, hports, hfamily⟩ := torAddrParseMaskPorts_spec hparse
      refine ⟨⟨?_, hmask, hmask6⟩, fun _ => hfamily⟩
      rw [htext]
      exact hports
  next => cases h

/-- **Expanded rules keep the ports of the line.** -/
theorem PolicyLine.rule_of_mem {line : PolicyLine} {p : AddrPolicy} (h : p ∈ line.rules) :
    line.Rule p := by
  obtain ⟨q, hq, hp⟩ := List.mem_flatMap.mp h
  have hrule : line.Rule q := by
    obtain ⟨q₀, hq₀, hq⟩ := List.mem_flatMap.mp hq
    obtain ⟨hrule, -⟩ := rule_of_parse (Option.mem_toList.mp hq₀)
    split at hq
    next =>
      obtain ⟨net, -, hnet⟩ := List.mem_filterMap.mp hq
      obtain ⟨⟨addr, bits, lo, hi⟩, hparse, rfl⟩ := Option.map_eq_some_iff.mp hnet
      obtain ⟨hmask, hmask6, -, -⟩ := torAddrParseMaskPorts_spec hparse
      exact ⟨hrule.ports, hmask, hmask6⟩
    next => exact List.mem_singleton.mp hq ▸ hrule
  split at hp
  next =>
    rcases List.mem_pair.mp hp with rfl | rfl
    · exact ⟨hrule.ports, fun _ => Nat.zero_le _, Nat.zero_le _⟩
    · exact ⟨hrule.ports, fun _ => Nat.zero_le _, Nat.zero_le _⟩
  next => exact List.mem_singleton.mp hp ▸ hrule

/-- The rules of all lines are those of each. -/
theorem expand_mapM {lines : List PolicyLine} {rules : List AddrPolicy}
    (h : lines.mapM PolicyLine.parse = some rules) :
    policyExpandUnspec (policyExpandPrivate rules) = lines.flatMap PolicyLine.rules := by
  induction lines generalizing rules with
  | nil =>
    obtain rfl := Option.some.inj h
    rfl
  | cons line lines ih =>
    rw [List.mapM_cons] at h
    obtain ⟨p, hp, h⟩ := Option.bind_eq_some_iff.mp h
    obtain ⟨ps, hps, h⟩ := Option.bind_eq_some_iff.mp h
    obtain rfl := Option.some.inj h
    rw [List.flatMap_cons, ← ih hps, PolicyLine.rules, hp]
    unfold policyExpandPrivate policyExpandUnspec
    rw [List.flatMap_cons, List.flatMap_append]
    simp

theorem producePolicy_eq {lines : List PolicyLine} {policy : List AddrPolicy}
    (h : producePolicy lines = some policy) :
    policy = lines.flatMap PolicyLine.rules ∧ policy.length ≤ intMax := by
  unfold producePolicy at h
  obtain ⟨rules, hrules, h⟩ := Option.bind_eq_some_iff.mp h
  obtain ⟨hlen, h⟩ := guard_bind_eq_some.mp h
  obtain rfl := Option.some.inj h
  exact ⟨expand_mapM hrules, hlen⟩

end Facts

/-! ## Descriptors -/

/-- `router_add_exit_policy` -/
def routerAddExitPolicy (policy : List AddrPolicy) (tok : DirectoryToken) :
    Option (List AddrPolicy) :=
  match routerParseAddrPolicy false tok with
  | none => none
  | some newe =>
    if ((tok.tp = .accept6 ∨ tok.tp = .reject6) ∧ newe.addr.family = .inet)
        ∨ ((tok.tp = .accept ∨ tok.tp = .reject) ∧ newe.addr.family = .inet6) then none
    else some (policy ++ [newe])

section Descriptors

/-- The rules of a descriptor are those of its lines. -/
theorem addExitPolicy_lines {toks : List DirectoryToken}
    (htoks : ∀ tok ∈ toks, tok.tp = .accept ∨ tok.tp = .accept6 ∨ tok.tp = .reject
      ∨ tok.tp = .reject6) {start rules : List AddrPolicy}
    (h : toks.foldlM routerAddExitPolicy start = some rules) :
    ∃ (lines : List PolicyLine) (new : List AddrPolicy), lines.map PolicyLine.tok = toks
      ∧ (∀ line ∈ lines, line.extendedStar = false)
      ∧ lines.mapM PolicyLine.parse = some new ∧ rules = start ++ new := by
  induction toks generalizing start with
  | nil =>
    obtain rfl := Option.some.inj h
    exact ⟨[], [], rfl, by simp, rfl, (List.append_nil _).symm⟩
  | cons tok toks ih =>
    rw [List.foldlM_cons] at h
    obtain ⟨policy, hadd, h⟩ := Option.bind_eq_some_iff.mp h
    obtain ⟨lines, new, hlines, hplain, hnew, rfl⟩ :=
      ih (fun tok htok => htoks tok (List.mem_cons_of_mem _ htok)) h
    unfold routerAddExitPolicy at hadd
    split at hadd
    next => cases hadd
    next newe hparse =>
      split at hadd
      next => cases hadd
      next =>
        obtain rfl := Option.some.inj hadd
        refine ⟨⟨tok, htoks tok List.mem_cons_self, false⟩ :: lines, newe :: new, ?_, ?_, ?_, ?_⟩
        · rw [List.map_cons, hlines]
        · exact List.forall_mem_cons.mpr ⟨rfl, hplain⟩
        · have hline : PolicyLine.parse ⟨tok, htoks tok List.mem_cons_self, false⟩ = some newe :=
            hparse
          rw [List.mapM_cons, hline, hnew]
          rfl
        · rw [List.append_assoc, List.singleton_append]

theorem mapM_mem {α β : Type} {f : α → Option β} {l : List α} {m : List β} (h : l.mapM f = some m)
    {b : β} (hb : b ∈ m) : ∃ a ∈ l, f a = some b := by
  induction l generalizing m with
  | nil =>
    obtain rfl := Option.some.inj h
    exact absurd hb List.not_mem_nil
  | cons a l ih =>
    rw [List.mapM_cons] at h
    obtain ⟨b', hb', h⟩ := Option.bind_eq_some_iff.mp h
    obtain ⟨m', hm', h⟩ := Option.bind_eq_some_iff.mp h
    obtain rfl := Option.some.inj h
    rcases List.mem_cons.mp hb with rfl | hb
    · exact ⟨a, List.mem_cons_self, hb'⟩
    · obtain ⟨x, hx, hfx⟩ := ih hm' hb
      exact ⟨x, List.mem_cons_of_mem _ hx, hfx⟩

/-- A descriptor has no star of both families, so there is nothing more to expand. -/
theorem expandUnspec_plain {lines : List PolicyLine} {rules : List AddrPolicy}
    (hplain : ∀ line ∈ lines, line.extendedStar = false)
    (h : lines.mapM PolicyLine.parse = some rules) :
    policyExpandUnspec (policyExpandPrivate rules) = policyExpandPrivate rules := by
  have hfamily : ∀ p ∈ policyExpandPrivate rules, p.addr.family ≠ .unspec := by
    intro p hp
    obtain ⟨q, hq, hp⟩ := List.mem_flatMap.mp hp
    split at hp
    next =>
      obtain ⟨net, -, hnet⟩ := List.mem_filterMap.mp hp
      obtain ⟨⟨addr, bits, lo, hi⟩, hparse, rfl⟩ := Option.map_eq_some_iff.mp hnet
      exact (torAddrParseMaskPorts_spec hparse).2.2.2 rfl
    next hprivate =>
      obtain rfl := List.mem_singleton.mp hp
      obtain ⟨line, hline, hparse⟩ := mapM_mem h hq
      exact (PolicyLine.rule_of_parse hparse).2 (Bool.eq_false_iff.mpr hprivate)
        (hplain line hline)
  unfold policyExpandUnspec
  generalize policyExpandPrivate rules = policy at hfamily
  induction policy with
  | nil => rfl
  | cons p policy ih =>
    rw [List.flatMap_cons, ih fun q hq => hfamily q (List.mem_cons_of_mem _ hq),
      if_neg fun hno => hfamily p List.mem_cons_self hno.1]
    rfl

/-- A parser of descriptors with these functions for its exit policy. -/
structure ParsesPolicies (L : RouterLib (List AddrPolicy)) : Prop where
  noPolicy : L.noPolicy = []
  addExitPolicy : L.addExitPolicy = routerAddExitPolicy
  expandPrivate : L.expandPrivate = policyExpandPrivate

/-- **The exit policy of a router comes from the lines of its descriptor.** -/
theorem descriptor_policy {L : RouterLib (List AddrPolicy)} (hL : ParsesPolicies L)
    {tokens : List DirectoryToken} {router : RouterInfo (List AddrPolicy)}
    (h : routerFields L tokens = some router) (hlen : router.exitPolicy.length ≤ intMax) :
    ∃ lines : List PolicyLine, lines.map PolicyLine.tok = findAllExitpolicy tokens
      ∧ (∀ line ∈ lines, line.extendedStar = false)
      ∧ producePolicy lines = some router.exitPolicy := by
  unfold routerFields at h
  -- the items read before the keys, then those between the keys and the policy
  iterate 14 obtain ⟨_, -, h⟩ := Option.bind_eq_some_iff.mp h
  obtain ⟨keys, -, h⟩ := Option.bind_eq_some_iff.mp h
  iterate 3 obtain ⟨_, -, h⟩ := Option.bind_eq_some_iff.mp h
  obtain ⟨policy, hpolicy, h⟩ := Option.bind_eq_some_iff.mp h
  iterate 3 obtain ⟨_, -, h⟩ := Option.bind_eq_some_iff.mp h
  obtain rfl := Option.some.inj h
  rw [hL.addExitPolicy, hL.noPolicy] at hpolicy
  dsimp only at hlen ⊢
  rw [hL.expandPrivate] at hlen ⊢
  have hkinds : ∀ tok ∈ findAllExitpolicy tokens, tok.tp = .accept ∨ tok.tp = .accept6
      ∨ tok.tp = .reject ∨ tok.tp = .reject6 := by
    intro tok htok
    have hkind := (List.mem_filter.mp htok).2
    simp only [Bool.or_eq_true, decide_eq_true_eq] at hkind
    tauto
  obtain ⟨lines, rules, hlines, hplain, hrules, rfl⟩ := addExitPolicy_lines hkinds hpolicy
  refine ⟨lines, hlines, hplain, ?_⟩
  unfold producePolicy
  rw [hrules]
  show (guard _ >>= fun _ => some _) = _
  rw [expandUnspec_plain hplain hrules]
  exact guard_bind_eq_some.mpr ⟨hlen, rfl⟩

end Descriptors

end Dittor.Tor

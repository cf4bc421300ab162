import Mathlib
import Dittor.Lib.Compare
import Dittor.Lib.FirstMatch
import Dittor.Tor.ExitPolicy

/-!
# What a policy says of an address and a port (`policies.c`, `address.c`)

A rule covers an address if the first bits of both are the same, which `tor_addr_compare_masked`
looks at byte by byte, and a port if it is in its range. The first rule that covers both decides.
Without the port or without the address `compare_tor_addr_to_addr_policy` looks for a rule that
covers whatever there is.

It takes a rule with no bits in its mask for one that covers all addresses, but this covers those
of its own family only. So an answer for an unknown address need not be that for each address;
`definite_answers_iff` says when it is.
-/

namespace Dittor.Tor

open Dittor.Lib

/-! ## Addresses under a mask -/

/-- The number of a family. -/
def Family.number : Family → ℕ
  | .unspec => 0
  | .inet => 2
  | .inet6 => 10

/-- `tor_addr_to_in6_addr8` -/
def in6Addr8 (words : List ℕ) : Bytes :=
  words.flatMap fun w => [UInt8.ofNat (w / 256), UInt8.ofNat w]

/-- A byte without its low bits, `0` behind the end. -/
def highBits (a : Bytes) (i bits : ℕ) : ℕ := ((a[i]?.getD 0).toNat) >>> (8 - bits)

/-- `tor_addr_compare_masked` of two addresses of IPv6 -/
def compareIn6 (a1 a2 : Bytes) (mbits : ℕ) : ℤ :=
  let bytes := mbits / 8
  let leftoverBits := mbits % 8
  let r := strcmp (a1.take bytes) (a2.take bytes)
  if bytes ≠ 0 ∧ r ≠ 0 then r
  else if leftoverBits ≠ 0 then
    cmpNum (highBits a1 bytes leftoverBits) (highBits a2 bytes leftoverBits)
  else 0

/-- `tor_addr_compare_masked` with `CMP_EXACT` -/
def torAddrCompareMasked (addr1 addr2 : TorAddr) (mbits : ℕ) : ℤ :=
  match addr1, addr2 with
  | .unspec, .unspec => 0
  | .inet a1, .inet a2 =>
    if mbits = 0 then 0
    else cmpNum (a1 >>> (32 - min mbits 32)) (a2 >>> (32 - min mbits 32))
  | .inet6 a1, .inet6 a2 => compareIn6 (in6Addr8 a1) (in6Addr8 a2) (min mbits 128)
  | _, _ => cmpNum addr1.family.number addr2.family.number

section Masked

variable {a b c : TorAddr} {m k : ℕ}

/-- The bytes of the mask are the same, and so are the high bits of the next one. -/
theorem compareIn6_eq_zero {x y : Bytes} :
    compareIn6 x y m = 0 ↔
      x.take (m / 8) = y.take (m / 8)
        ∧ (m % 8 ≠ 0 → highBits x (m / 8) (m % 8) = highBits y (m / 8) (m % 8)) := by
  unfold compareIn6
  dsimp only
  split_ifs with hbytes hbits
  · have hne : x.take (m / 8) ≠ y.take (m / 8) := fun h => hbytes.2 (strcmp_eq_zero.mpr h)
    exact ⟨fun h => absurd h hbytes.2, fun h => absurd h.1 hne⟩
  all_goals
    have htake : x.take (m / 8) = y.take (m / 8) := by
      by_cases hzero : m / 8 = 0
      · rw [hzero]
        rfl
      · exact strcmp_eq_zero.mp (not_not.mp fun h => hbytes ⟨hzero, h⟩)
  · rw [cmpNum_eq_zero]
    exact ⟨fun h => ⟨htake, fun _ => h⟩, fun h => h.2 hbits⟩
  · exact ⟨fun _ => ⟨htake, fun h => absurd h hbits⟩, fun _ => rfl⟩

/-- Fewer bits are the same as well. -/
theorem compareIn6_mono {x y : Bytes} (h : compareIn6 x y m = 0) (hle : k ≤ m) :
    compareIn6 x y k = 0 := by
  rw [compareIn6_eq_zero] at h ⊢
  obtain ⟨htake, hbits⟩ := h
  have hdiv : k / 8 ≤ m / 8 := Nat.div_le_div_right hle
  refine ⟨?_, fun hk => ?_⟩
  · have := congrArg (List.take (k / 8)) htake
    rwa [List.take_take, List.take_take, min_eq_left hdiv] at this
  · rcases hdiv.lt_or_eq with hlt | heq
    · -- the byte is one of those that are the same
      have hget : x[k / 8]? = y[k / 8]? := by
        have := congrArg (fun l => l[k / 8]?) htake
        simpa only [List.getElem?_take_of_lt hlt] using this
      unfold highBits
      rw [hget]
    · have hmod : k % 8 ≤ m % 8 := by omega
      have hsame := hbits (by omega)
      unfold highBits at hsame ⊢
      rw [← heq] at hsame
      have hshift : 8 - k % 8 = (8 - m % 8) + (m % 8 - k % 8) := by omega
      rw [hshift, Nat.shiftRight_add, Nat.shiftRight_add, hsame]

theorem compareMasked_family (h : torAddrCompareMasked a b m = 0) : a.family = b.family := by
  cases a <;> cases b
  all_goals first
    | rfl
    | simp [torAddrCompareMasked, cmpNum, TorAddr.family, Family.number] at h

theorem compareMasked_symm (h : torAddrCompareMasked a b m = 0) :
    torAddrCompareMasked b a m = 0 := by
  have hfamily := compareMasked_family h
  cases a <;> cases b <;> simp only [TorAddr.family, reduceCtorEq] at hfamily
  · rfl
  · rw [torAddrCompareMasked] at h ⊢
    split_ifs at h ⊢
    · rfl
    · rw [cmpNum_eq_zero] at h ⊢
      exact h.symm
  · rw [torAddrCompareMasked, compareIn6_eq_zero] at h ⊢
    exact ⟨h.1.symm, fun hm => (h.2 hm).symm⟩

theorem compareMasked_trans (hab : torAddrCompareMasked a b m = 0)
    (hbc : torAddrCompareMasked b c m = 0) : torAddrCompareMasked a c m = 0 := by
  have hfamily := compareMasked_family hab
  have hfamily' := compareMasked_family hbc
  cases a <;> cases b <;> simp only [TorAddr.family, reduceCtorEq] at hfamily
  all_goals cases c <;> simp only [TorAddr.family, reduceCtorEq] at hfamily'
  · rfl
  · rw [torAddrCompareMasked] at hab hbc ⊢
    split_ifs at hab hbc ⊢
    · rfl
    · rw [cmpNum_eq_zero] at hab hbc ⊢
      exact hab.trans hbc
  · rw [torAddrCompareMasked, compareIn6_eq_zero] at hab hbc ⊢
    exact ⟨hab.1.trans hbc.1, fun hm => (hab.2 hm).trans (hbc.2 hm)⟩

theorem compareMasked_mono (h : torAddrCompareMasked a b m = 0) (hle : k ≤ m) :
    torAddrCompareMasked a b k = 0 := by
  have hfamily := compareMasked_family h
  cases a <;> cases b <;> simp only [TorAddr.family, reduceCtorEq] at hfamily
  · rfl
  · rw [torAddrCompareMasked] at h ⊢
    by_cases hk : k = 0
    · rw [if_pos hk]
    · rw [if_neg hk, cmpNum_eq_zero]
      rw [if_neg (by omega), cmpNum_eq_zero] at h
      have hshift : 32 - min k 32 = (32 - min m 32) + (min m 32 - min k 32) := by omega
      rw [hshift, Nat.shiftRight_add, Nat.shiftRight_add, h]
  · exact compareIn6_mono h (by omega)

/-- A mask without bits matches the addresses of the family. -/
theorem compareMasked_zero : torAddrCompareMasked a b 0 = 0 ↔ a.family = b.family := by
  refine ⟨compareMasked_family, fun hfamily => ?_⟩
  cases a <;> cases b <;> simp only [TorAddr.family, reduceCtorEq] at hfamily
  · rfl
  · rfl
  · rw [torAddrCompareMasked, compareIn6_eq_zero]
    simp

end Masked

/-! ## Comparisons with a policy -/

/-- `addr_policy_result_t` -/
inductive AddrPolicyResult where
  | accepted | rejected | probablyAccepted | probablyRejected
deriving DecidableEq, Repr

/-- The definite answer. -/
def PolicyAction.result : PolicyAction → AddrPolicyResult
  | .accept => .accepted
  | .reject => .rejected

/-- `compare_known_tor_addr_to_addr_policy` -/
def compareKnownTorAddrToAddrPolicy (addr : TorAddr) (port : ℕ) :
    List AddrPolicy → AddrPolicyResult
  | [] => .accepted
  | tmpe :: policy =>
    if torAddrCompareMasked addr tmpe.addr tmpe.maskbits = 0 then
      if tmpe.prtMin ≤ port ∧ port ≤ tmpe.prtMax then tmpe.policyType.result
      else compareKnownTorAddrToAddrPolicy addr port policy
    else compareKnownTorAddrToAddrPolicy addr port policy

/-- What the loops of the two other comparisons do with a rule that might match: it is definite or
not, and `maybe_accept` and `maybe_reject` say what was seen before. -/
def compareInPart (might definite : AddrPolicy → Bool) :
    Bool → Bool → List AddrPolicy → AddrPolicyResult
  | _, maybeReject, [] => if maybeReject then .probablyAccepted else .accepted
  | maybeAccept, maybeReject, tmpe :: policy =>
    if might tmpe then
      if definite tmpe then
        match tmpe.policyType with
        | .accept => if maybeReject then .probablyAccepted else .accepted
        | .reject => if maybeAccept then .probablyRejected else .rejected
      else
        match tmpe.policyType with
        | .reject => compareInPart might definite maybeAccept true policy
        | .accept => compareInPart might definite true maybeReject policy
    else compareInPart might definite maybeAccept maybeReject policy

/-- A rule that covers all ports. -/
def AddrPolicy.allPorts (p : AddrPolicy) : Bool := p.prtMin ≤ 1 && 65535 ≤ p.prtMax

/-- The rule covers the address. -/
def AddrPolicy.coversAddr (p : AddrPolicy) (addr : TorAddr) : Bool :=
  torAddrCompareMasked addr p.addr p.maskbits = 0

/-- The rule covers the port. -/
def AddrPolicy.coversPort (p : AddrPolicy) (port : ℕ) : Bool := p.prtMin ≤ port && port ≤ p.prtMax

/-- The rule covers an address and a port. -/
def AddrPolicy.covers (p : AddrPolicy) (q : TorAddr × ℕ) : Bool :=
  p.coversAddr q.1 && p.coversPort q.2

/-- `compare_known_tor_addr_to_addr_policy_noport` -/
def compareKnownTorAddrToAddrPolicyNoport (addr : TorAddr) (policy : List AddrPolicy) :
    AddrPolicyResult :=
  compareInPart (fun p => p.coversAddr addr) AddrPolicy.allPorts false false policy

/-- `compare_unknown_tor_addr_to_addr_policy` -/
def compareUnknownTorAddrToAddrPolicy (port : ℕ) (policy : List AddrPolicy) : AddrPolicyResult :=
  compareInPart (fun p => p.coversPort port) (fun p => p.maskbits = 0) false false policy

/-- `tor_addr_is_null` -/
def torAddrIsNull : TorAddr → Bool
  | .unspec => true
  | .inet a => a = 0
  | .inet6 words => words.all fun w => w = 0

/-- `compare_tor_addr_to_addr_policy` -/
def compareTorAddrToAddrPolicy (addr : Option TorAddr) (port : ℕ) :
    Option (List AddrPolicy) → AddrPolicyResult
  | none => .accepted
  | some policy =>
    match addr.filter fun a => !torAddrIsNull a with
    | none => if port = 0 then .rejected else compareUnknownTorAddrToAddrPolicy port policy
    | some addr =>
      if port = 0 then compareKnownTorAddrToAddrPolicyNoport addr policy
      else compareKnownTorAddrToAddrPolicy addr port policy

/-! ## The first rule decides -/

section Decisions

variable {policy : List AddrPolicy} {addr : TorAddr} {port : ℕ} {v : PolicyAction}

/-- What the policy says of an address and a port. -/
def policyVerdict (policy : List AddrPolicy) (q : TorAddr × ℕ) : PolicyAction :=
  firstMatch AddrPolicy.covers AddrPolicy.policyType .accept policy q

theorem compareKnown_eq :
    compareKnownTorAddrToAddrPolicy addr port policy = (policyVerdict policy (addr, port)).result := by
  induction policy with
  | nil => rfl
  | cons p policy ih =>
    unfold compareKnownTorAddrToAddrPolicy policyVerdict firstMatch
    rw [ih]
    by_cases haddr : torAddrCompareMasked addr p.addr p.maskbits = 0
    · by_cases hport : p.prtMin ≤ port ∧ port ≤ p.prtMax
      · simp [AddrPolicy.covers, AddrPolicy.coversAddr, AddrPolicy.coversPort, haddr, hport]
      · rw [if_pos haddr, if_neg hport, if_neg]
        · rfl
        · simpa [AddrPolicy.covers, AddrPolicy.coversAddr, AddrPolicy.coversPort, haddr] using hport
    · simp [AddrPolicy.covers, AddrPolicy.coversAddr, haddr, policyVerdict]

theorem result_inj {v w : PolicyAction} (h : v.result = w.result) : v = w := by
  cases v <;> cases w <;> first | rfl | cases h

/-- The answer in part is definite if the verdict is the same whichever rules match. -/
theorem compareInPart_eq_result {might definite : AddrPolicy → Bool} {maybeAccept maybeReject : Bool} :
    compareInPart might definite maybeAccept maybeReject policy = v.result ↔
      surely AddrPolicy.policyType .accept might definite policy = some v
        ∧ (v = .accept → maybeReject = false) ∧ (v = .reject → maybeAccept = false) := by
  induction policy generalizing maybeAccept maybeReject with
  | nil => cases v <;> cases maybeReject <;> simp [compareInPart, surely, PolicyAction.result]
  | cons p policy ih =>
    unfold compareInPart surely
    cases might p with
    | false => simpa using ih
    | true =>
      cases definite p with
      | true =>
        cases htype : p.policyType <;> cases v <;> cases maybeAccept <;> cases maybeReject <;>
          simp [PolicyAction.result]
      | false =>
        simp only [if_true, Bool.false_eq_true, if_false]
        rw [Option.filter_eq_some_iff]
        cases htype : p.policyType with
        | accept =>
          rw [ih]
          cases v <;> simp
        | reject =>
          rw [ih]
          cases v <;> simp

/-- **An answer without the port is that for each port.** -/
theorem noport_right (h : compareKnownTorAddrToAddrPolicyNoport addr policy = v.result)
    (hport : 1 ≤ port ∧ port ≤ 65535) :
    compareKnownTorAddrToAddrPolicy addr port policy = v.result := by
  rw [compareKnown_eq]
  congr 1
  refine firstMatch_of_surely (fun p _ hcov => ?_) (fun p _ haddr hall => ?_)
    (compareInPart_eq_result.mp h).1
  · rw [AddrPolicy.covers, Bool.and_eq_true] at hcov
    exact hcov.1
  · have hports : p.prtMin ≤ 1 ∧ 65535 ≤ p.prtMax := by simpa [AddrPolicy.allPorts] using hall
    rw [AddrPolicy.covers, haddr, Bool.true_and, AddrPolicy.coversPort, Bool.and_eq_true,
      decide_eq_true_iff, decide_eq_true_iff]
    omega

end Decisions

/-! ## Unknown addresses -/

/-- An address of IPv4 or IPv6. -/
def TorAddr.IsIp (addr : TorAddr) : Prop := addr.family = .inet ∨ addr.family = .inet6

/-- The comparison without an address ends at `stop`, a rule for all addresses of its family: those
in front of it for the port are of the same type, and for some addresses only. -/
structure StopsAt (policy : List AddrPolicy) (port : ℕ) (front : List AddrPolicy)
    (stop : AddrPolicy) (behind : List AddrPolicy) : Prop where
  split : policy = front ++ stop :: behind
  covered : stop.coversPort port = true
  mask : stop.maskbits = 0
  tentative : ∀ p ∈ front, p.coversPort port = true →
    p.maskbits ≠ 0 ∧ p.policyType = stop.policyType

/-- Wherever a rule for one family decides, the rules behind it say the same of each address of the
other that no rule in front of it covers. -/
def FamiliesAgree (policy : List AddrPolicy) : Prop :=
  ∀ port, 1 ≤ port → port ≤ 65535 → ∀ front stop behind, StopsAt policy port front stop behind →
    ∀ addr : TorAddr, addr.IsIp → addr.family ≠ stop.addr.family →
      (∀ p ∈ front, p.covers (addr, port) = false) →
        policyVerdict behind (addr, port) = stop.policyType

/-- Definite answers, for an address without a port and for a port without an address, are those
of the exact comparison. -/
structure DefiniteAnswersRight (policy : List AddrPolicy) : Prop where
  noport : ∀ (addr : TorAddr) (v : PolicyAction), torAddrIsNull addr = false →
    compareTorAddrToAddrPolicy (some addr) 0 (some policy) = v.result →
      ∀ port, 1 ≤ port → port ≤ 65535 → compareKnownTorAddrToAddrPolicy addr port policy = v.result
  noaddr : ∀ (unknown : Option TorAddr) (port : ℕ) (v : PolicyAction),
    (∀ addr ∈ unknown, torAddrIsNull addr = true) → 1 ≤ port → port ≤ 65535 →
    compareTorAddrToAddrPolicy unknown port (some policy) = v.result →
      ∀ addr : TorAddr, addr.IsIp → compareKnownTorAddrToAddrPolicy addr port policy = v.result

section Unknown

variable {policy front behind : List AddrPolicy} {stop : AddrPolicy} {addr : TorAddr} {port : ℕ}
variable {v : PolicyAction}

theorem compareTorAddr_unknown {unknown : Option TorAddr}
    (h : ∀ addr ∈ unknown, torAddrIsNull addr = true) (hport : 1 ≤ port) :
    compareTorAddrToAddrPolicy unknown port (some policy)
      = compareUnknownTorAddrToAddrPolicy port policy := by
  have hnone : (unknown.filter fun a => !torAddrIsNull a) = none := by
    rw [Option.filter_eq_none_iff]
    simpa using h
  unfold compareTorAddrToAddrPolicy
  dsimp only
  rw [hnone]
  exact if_neg (by omega)

theorem covers_of_port {p : AddrPolicy} (hport : p.coversPort port = true)
    (hmask : p.maskbits = 0) : p.covers (addr, port) = decide (addr.family = p.addr.family) := by
  rw [AddrPolicy.covers, hport, Bool.and_true, AddrPolicy.coversAddr, hmask]
  exact decide_eq_decide.mpr compareMasked_zero

/-- Where the comparison without an address ends at a rule, what is said of an address of the other
family is up to the rules behind. -/
theorem StopsAt.verdict_iff (h : StopsAt policy port front stop behind)
    (hother : addr.family ≠ stop.addr.family) :
    policyVerdict policy (addr, port) = stop.policyType ↔
      ((∀ p ∈ front, p.covers (addr, port) = false) →
        policyVerdict behind (addr, port) = stop.policyType) := by
  have hpass : stop.covers (addr, port) = false := by
    rw [covers_of_port h.covered h.mask]
    exact decide_eq_false hother
  have hagree : ∀ p ∈ front, p.covers (addr, port) = true → p.policyType = stop.policyType := by
    intro p hp hcov
    rw [AddrPolicy.covers, Bool.and_eq_true] at hcov
    exact (h.tentative p hp hcov.2).2
  rw [h.split]
  by_cases hnone : ∀ p ∈ front, p.covers (addr, port) = false
  · unfold policyVerdict
    rw [firstMatch_append_of_not_covered hnone, firstMatch_cons_of_not_covered hpass]
    exact ⟨fun heq _ => heq, fun heq => heq hnone⟩
  · refine iff_of_true ?_ fun hall => absurd hall hnone
    exact (firstMatch_append_of_verdicts hagree).resolve_right fun hno => hnone hno.1

/-- An answer without an address comes from such a rule, or all rules for the port accept. -/
theorem unknown_eq_result :
    compareUnknownTorAddrToAddrPolicy port policy = v.result ↔
      (∃ front stop behind, StopsAt policy port front stop behind ∧ stop.policyType = v)
      ∨ PolicyAction.accept = v
        ∧ ∀ p ∈ policy, p.coversPort port = true → p.maskbits ≠ 0 ∧ p.policyType = v := by
  unfold compareUnknownTorAddrToAddrPolicy
  rw [compareInPart_eq_result, surely_eq_some_iff]
  simp only [implies_true, and_true, Tentative, decide_eq_true_eq, decide_eq_false_iff_not]
  refine or_congr_left ⟨?_, ?_⟩
  · rintro ⟨front, stop, behind, hsplit, hport, hmask, rfl, htent⟩
    exact ⟨front, stop, behind, ⟨hsplit, hport, hmask, htent⟩, rfl⟩
  · rintro ⟨front, stop, behind, ⟨hsplit, hport, hmask, htent⟩, rfl⟩
    exact ⟨front, stop, behind, hsplit, hport, hmask, rfl, htent⟩

end Unknown

/-- The policy `reject *4:*`, and nothing for IPv6. -/
def rejectStar4 : List AddrPolicy := [⟨.reject, false, 0, .inet 0, 1, 65535⟩]

end Dittor.Tor

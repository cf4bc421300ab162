import Mathlib
import Dittor.Tor.PolicyMatch

/-!
# Rules that can go (`policies.c`)

`exit_policy_remove_redundancies` goes over a policy three times and deletes from it as it goes:
what stands behind a rule for everything of its family, what an earlier rule covers, and what a
later rule of the same type covers with no rule of the other type in between that meets it. An
index that is stepped back with a deletion goes on with the element that moved up, so a loop is a
recursion over what is left.

Each of them keeps the verdict on every address and port (`removeRedundancies_verdict`).
-/

namespace Dittor.Tor

open Dittor.Lib

/-! ## The three steps -/

/-- `addr_policy_covers` -/
def addrPolicyCovers (a b : AddrPolicy) : Bool :=
  a.addr.family = b.addr.family && a.maskbits ≤ b.maskbits
    && torAddrCompareMasked a.addr b.addr a.maskbits = 0
    && a.prtMin ≤ b.prtMin && b.prtMax ≤ a.prtMax

/-- `addr_policy_intersects` -/
def addrPolicyIntersects (a b : AddrPolicy) : Bool :=
  torAddrCompareMasked a.addr b.addr (min a.maskbits b.maskbits) = 0
    && !(a.prtMax < b.prtMin || b.prtMax < a.prtMin)

/-- A catch-all line. -/
def AddrPolicy.catchAll (p : AddrPolicy) : Bool := p.maskbits = 0 && p.allPorts

/-- Step one: every IPv4 thing after `*4:*` goes, and every IPv6 thing after `*6:*`. -/
def killUnreachable : Bool → Bool → List AddrPolicy → List AddrPolicy
  | _, _, [] => []
  | killV4, killV6, ap :: dest =>
    if (ap.addr.family = .inet ∧ killV4) ∨ (ap.addr.family = .inet6 ∧ killV6) then
      killUnreachable killV4 killV6 dest
    else
      ap :: killUnreachable (killV4 || (ap.catchAll && ap.addr.family = .inet))
        (killV6 || (ap.catchAll && ap.addr.family = .inet6)) dest

/-- The inner loop of step two: the entries go that this one covers. -/
def dropCoveredBy (ap : AddrPolicy) (dest : List AddrPolicy) : List AddrPolicy :=
  dest.filter fun tmp => !addrPolicyCovers ap tmp

theorem length_dropCoveredBy_le (ap : AddrPolicy) (dest : List AddrPolicy) :
    (dropCoveredBy ap dest).length ≤ dest.length := List.length_filter_le _ _

/-- Step two: every entry that an earlier one covers goes. -/
def dropCovered : List AddrPolicy → List AddrPolicy
  | [] => []
  | ap :: dest => ap :: dropCovered (dropCoveredBy ap dest)
termination_by dest => dest.length
decreasing_by exact Nat.lt_succ_of_le (length_dropCoveredBy_le ap dest)

/-- The inner loop of step three: there is an entry that makes this one redundant. -/
def repeatedLater (ap : AddrPolicy) : List AddrPolicy → Bool
  | [] => false
  | tmp :: dest =>
    if ap.policyType ≠ tmp.policyType then
      if addrPolicyIntersects ap tmp then false else repeatedLater ap dest
    else if addrPolicyCovers tmp ap then true
    else repeatedLater ap dest

/-- Step three: every entry goes that one later on makes redundant. -/
def dropRepeated : List AddrPolicy → List AddrPolicy
  | [] => []
  | ap :: dest => if repeatedLater ap dest then dropRepeated dest else ap :: dropRepeated dest

/-- `exit_policy_remove_redundancies` -/
def exitPolicyRemoveRedundancies (dest : List AddrPolicy) : List AddrPolicy :=
  dropRepeated (dropCovered (killUnreachable false false dest))

/-! ## They keep the verdict -/

section Steps

variable {a b : AddrPolicy} {dest : List AddrPolicy} {addr : TorAddr} {port : ℕ}

theorem covers_iff {p : AddrPolicy} :
    p.covers (addr, port) = true ↔
      torAddrCompareMasked addr p.addr p.maskbits = 0 ∧ p.prtMin ≤ port ∧ port ≤ p.prtMax := by
  simp [AddrPolicy.covers, AddrPolicy.coversAddr, AddrPolicy.coversPort]

/-- A rule covers all that one covers which it is said to cover. -/
theorem covers_of_addrPolicyCovers (h : addrPolicyCovers a b = true)
    (hb : b.covers (addr, port) = true) : a.covers (addr, port) = true := by
  simp only [addrPolicyCovers, Bool.and_eq_true, decide_eq_true_eq] at h
  obtain ⟨⟨⟨⟨-, hmask⟩, haddr⟩, hmin⟩, hmax⟩ := h
  obtain ⟨hmatch, hlo, hhi⟩ := covers_iff.mp hb
  refine covers_iff.mpr ⟨?_, by omega, by omega⟩
  exact compareMasked_trans (compareMasked_mono hmatch hmask) (compareMasked_symm haddr)

/-- Two rules that cover one address and port are said to meet. -/
theorem addrPolicyIntersects_of_covers (ha : a.covers (addr, port) = true)
    (hb : b.covers (addr, port) = true) : addrPolicyIntersects a b = true := by
  obtain ⟨hmatch, hlo, hhi⟩ := covers_iff.mp ha
  obtain ⟨hmatch', hlo', hhi'⟩ := covers_iff.mp hb
  have haddr : torAddrCompareMasked a.addr b.addr (min a.maskbits b.maskbits) = 0 :=
    compareMasked_trans (compareMasked_symm (compareMasked_mono hmatch (Nat.min_le_left _ _)))
      (compareMasked_mono hmatch' (Nat.min_le_right _ _))
  simp only [addrPolicyIntersects, haddr, decide_true, Bool.true_and, Bool.not_eq_true',
    Bool.or_eq_false_iff, decide_eq_false_iff_not]
  omega

/-- Step one; the flag of the address's family is not set. -/
theorem killUnreachable_verdict (hport : 1 ≤ port ∧ port ≤ 65535) {killV4 killV6 : Bool}
    (h4 : addr.family = .inet → killV4 = false) (h6 : addr.family = .inet6 → killV6 = false) :
    policyVerdict (killUnreachable killV4 killV6 dest) (addr, port)
      = policyVerdict dest (addr, port) := by
  induction dest generalizing killV4 killV6 with
  | nil => rfl
  | cons ap dest ih =>
    unfold killUnreachable
    split_ifs with hkill
    · -- the entry is of the other family
      have hnot : ap.covers (addr, port) = false := by
        by_contra hcov
        rw [Bool.not_eq_false] at hcov
        have hfamily := compareMasked_family (covers_iff.mp hcov).1
        rcases hkill with ⟨hf, hk⟩ | ⟨hf, hk⟩
        · rw [h4 (hfamily.trans hf)] at hk
          cases hk
        · rw [h6 (hfamily.trans hf)] at hk
          cases hk
      rw [ih h4 h6]
      exact (firstMatch_cons_of_not_covered hnot).symm
    · by_cases hcov : ap.covers (addr, port) = true
      · exact (firstMatch_cons_of_covered hcov).trans (firstMatch_cons_of_covered hcov).symm
      · rw [Bool.not_eq_true] at hcov
        refine (firstMatch_cons_of_not_covered hcov).trans
          (Eq.trans ?_ (firstMatch_cons_of_not_covered hcov).symm)
        -- a catch-all line of the family would have covered it
        have hcatch : addr.family = ap.addr.family → ap.catchAll = false := by
          intro hfamily
          by_contra hall
          rw [Bool.not_eq_false, AddrPolicy.catchAll, Bool.and_eq_true, decide_eq_true_iff,
            AddrPolicy.allPorts, Bool.and_eq_true, decide_eq_true_iff, decide_eq_true_iff] at hall
          obtain ⟨hmask, hmin, hmax⟩ := hall
          have hyes : ap.covers (addr, port) = true :=
            covers_iff.mpr ⟨hmask ▸ compareMasked_zero.mpr hfamily, by omega, by omega⟩
          rw [hcov] at hyes
          cases hyes
        refine ih (fun hf => ?_) (fun hf => ?_)
        · rw [h4 hf, Bool.false_or, Bool.and_eq_false_iff, decide_eq_false_iff_not]
          by_cases hsame : ap.addr.family = .inet
          · exact .inl (hcatch (hf.trans hsame.symm))
          · exact .inr hsame
        · rw [h6 hf, Bool.false_or, Bool.and_eq_false_iff, decide_eq_false_iff_not]
          by_cases hsame : ap.addr.family = .inet6
          · exact .inl (hcatch (hf.trans hsame.symm))
          · exact .inr hsame

/-- Step two. -/
theorem dropCovered_verdict :
    policyVerdict (dropCovered dest) (addr, port) = policyVerdict dest (addr, port) := by
  induction dest using dropCovered.induct with
  | case1 => rw [dropCovered]
  | case2 ap dest ih =>
    have hrest : policyVerdict (ap :: dropCovered (dropCoveredBy ap dest)) (addr, port)
        = policyVerdict (ap :: dropCoveredBy ap dest) (addr, port) := by
      unfold policyVerdict firstMatch
      exact congrArg _ ih
    rw [dropCovered, hrest]
    refine firstMatch_filter_shadowed fun r _ hkeep hcov => ?_
    rw [Bool.not_eq_false'] at hkeep
    exact covers_of_addrPolicyCovers hkeep hcov

/-- What the inner loop of step three finds: a later entry of the same type, with none of the other
type that meets the entry in between. -/
theorem repeatedLater_split (h : repeatedLater a dest = true) :
    ∃ mid tmp post, dest = mid ++ tmp :: post ∧ addrPolicyCovers tmp a = true
      ∧ tmp.policyType = a.policyType
      ∧ ∀ r ∈ mid, r.policyType = a.policyType ∨ addrPolicyIntersects a r = false := by
  induction dest with
  | nil => cases h
  | cons tmp dest ih =>
    rw [repeatedLater] at h
    split_ifs at h with htype hmeet hcovers
    · obtain ⟨mid, found, post, rfl, hcov, hsame, hmid⟩ := ih h
      refine ⟨tmp :: mid, found, post, rfl, hcov, hsame, List.forall_mem_cons.mpr ⟨?_, hmid⟩⟩
      exact .inr (Bool.not_eq_true _ ▸ hmeet)
    · exact ⟨[], tmp, dest, rfl, hcovers, (not_not.mp htype).symm, by simp⟩
    · obtain ⟨mid, found, post, rfl, hcov, hsame, hmid⟩ := ih h
      refine ⟨tmp :: mid, found, post, rfl, hcov, hsame, List.forall_mem_cons.mpr ⟨?_, hmid⟩⟩
      exact .inl (not_not.mp htype).symm

/-- Step three. -/
theorem dropRepeated_verdict :
    policyVerdict (dropRepeated dest) (addr, port) = policyVerdict dest (addr, port) := by
  induction dest with
  | nil => rfl
  | cons ap dest ih =>
    rw [dropRepeated]
    split_ifs with hrepeated
    · obtain ⟨mid, tmp, post, rfl, hcov, hsame, hmid⟩ := repeatedLater_split hrepeated
      rw [ih]
      refine (firstMatch_drop_repeated (fun r hr ha hr' => ?_)
        (fun ha => covers_of_addrPolicyCovers hcov ha) hsame).symm
      refine (hmid r hr).resolve_right fun hno => ?_
      rw [addrPolicyIntersects_of_covers ha hr'] at hno
      cases hno
    · unfold policyVerdict firstMatch
      exact congrArg _ ih

theorem removeRedundancies_verdict (hport : 1 ≤ port ∧ port ≤ 65535) :
    policyVerdict (exitPolicyRemoveRedundancies dest) (addr, port)
      = policyVerdict dest (addr, port) := by
  rw [exitPolicyRemoveRedundancies, dropRepeated_verdict, dropCovered_verdict]
  exact killUnreachable_verdict hport (fun _ => rfl) fun _ => rfl

end Steps

/-- **Removing redundancies preserves every decision.** -/
theorem remove_redundancies_same (dest : List AddrPolicy) (addr : TorAddr) {port : ℕ}
    (hport : 1 ≤ port ∧ port ≤ 65535) :
    compareKnownTorAddrToAddrPolicy addr port (exitPolicyRemoveRedundancies dest)
      = compareKnownTorAddrToAddrPolicy addr port dest := by
  rw [compareKnown_eq, compareKnown_eq, removeRedundancies_verdict hport]

/-- Of `reject 10.0.0.0/8:25, reject *4:25, accept *4:25` the first and the last entry go. -/
theorem remove_redundancies_mail :
    exitPolicyRemoveRedundancies [⟨.reject, false, 8, .inet 167772160, 25, 25⟩,
        ⟨.reject, false, 0, .inet 0, 25, 25⟩, ⟨.accept, false, 0, .inet 0, 25, 25⟩]
        = [⟨.reject, false, 0, .inet 0, 25, 25⟩]
      ∧ compareKnownTorAddrToAddrPolicy (.inet 167772161) 25 [⟨.reject, false, 0, .inet 0, 25, 25⟩]
        = compareKnownTorAddrToAddrPolicy (.inet 167772161) 25
          [⟨.reject, false, 8, .inet 167772160, 25, 25⟩, ⟨.reject, false, 0, .inet 0, 25, 25⟩,
            ⟨.accept, false, 0, .inet 0, 25, 25⟩] := by
  have hremove : exitPolicyRemoveRedundancies [⟨.reject, false, 8, .inet 167772160, 25, 25⟩,
      ⟨.reject, false, 0, .inet 0, 25, 25⟩, ⟨.accept, false, 0, .inet 0, 25, 25⟩]
      = [⟨.reject, false, 0, .inet 0, 25, 25⟩] := by decide +kernel
  refine ⟨hremove, ?_⟩
  rw [← hremove]
  exact remove_redundancies_same _ _ (by decide)

end Dittor.Tor

import Mathlib
import Dittor.Lib.Checks
import Dittor.Lib.NetMask
import Dittor.Tor.PolicyMatch

/-!
# Whether a policy is that of a general exit (`policies.c`, `address.c`)

`exit_policy_is_general_exit_helper` looks for a network of eight bits that a policy accepts at a
port. It keeps one entry for each of the 256 networks: a rule that rejects marks every network it
reaches into, and the first rule that accepts a whole network without a mark ends the search.

The rules in front of it that cover anything in the network are then all of its own type: one that
rejects would have left its mark (`Marked`). So the network is accepted whole
(`general_exit_sound`). The networks that a rule reaches into are those between the first and the
last word under its mask, which are all in the table.
-/

namespace Dittor.Tor

open Dittor.Lib

/-! ## Internal addresses -/

/-- `tor_addr_to_ipv4h` -/
def torAddrToIpv4h : TorAddr → BitVec 32
  | .inet a => BitVec.ofNat 32 a
  | _ => 0

/-- One of the four words of `tor_addr_to_in6_addr32`, in host order. -/
def in6Addr32 (words : List ℕ) (i : ℕ) : BitVec 32 :=
  BitVec.ofNat 32 (words.getD (2 * i) 0 * 65536 + words.getD (2 * i + 1) 0)

/-- `tor_addr_is_v4` -/
def torAddrIsV4 : TorAddr → Bool
  | .unspec => false
  | .inet _ => true
  | .inet6 a => in6Addr32 a 0 = 0 ∧ in6Addr32 a 1 = 0 ∧ in6Addr32 a 2 = 0xffff

/-- The networks that `tor_addr_is_internal` names for IPv4. -/
def internalIpv4 (iph4 : BitVec 32) (forListening : Bool) : Bool :=
  if forListening ∧ (iph4 = 0 ∨ iph4 &&& 0xffc00000 = 0x64400000) then false
  else
    iph4 &&& 0xff000000 = 0x0a000000 ∨ iph4 &&& 0xff000000 = 0x00000000
      ∨ iph4 &&& 0xff000000 = 0x7f000000 ∨ iph4 &&& 0xffc00000 = 0x64400000
      ∨ iph4 &&& 0xffff0000 = 0xa9fe0000 ∨ iph4 &&& 0xfff00000 = 0xac100000
      ∨ iph4 &&& 0xffff0000 = 0xc0a80000

/-- The networks that it names for IPv6. -/
def internalIpv6 (a : List ℕ) (forListening : Bool) : Bool :=
  let iph6 := in6Addr32 a
  if forListening ∧ iph6 0 = 0 ∧ iph6 1 = 0 ∧ iph6 2 = 0 ∧ iph6 3 = 0 then false
  else
    iph6 0 &&& 0xfe000000 = 0xfc000000 ∨ iph6 0 &&& 0xffc00000 = 0xfe800000
      ∨ iph6 0 &&& 0xffc00000 = 0xfec00000
      ∨ iph6 0 = 0 ∧ iph6 1 = 0 ∧ iph6 2 = 0 ∧ iph6 3 &&& 0xfffffffe = 0

/-- `tor_addr_is_internal` -/
def torAddrIsInternal (addr : TorAddr) (forListening : Bool) : Bool :=
  match addr with
  | .unspec => true
  | .inet _ => internalIpv4 (torAddrToIpv4h addr) forListening
  | .inet6 a =>
    if torAddrIsV4 addr then internalIpv4 (in6Addr32 a 3) forListening
    else internalIpv6 a forListening

/-! ## The search -/

/-- How the search can fail. -/
inductive GeneralExitError where
  /-- `tor_assert(p->maskbits <= 32)` -/
  | maskbits
  /-- An index outside of `subnet_status`. -/
  | outOfBounds
  /-- The loop over the networks of a rule did not end. -/
  | stillRunning
deriving DecidableEq, Repr

/-- Whether a network is left out. -/
def localSubnet (dirAllowPrivateAddresses : Bool) (i : BitVec 32) : Bool :=
  torAddrIsInternal (.inet (i <<< 24).toNat) false && !dirAllowPrivateAddresses

/-- The loop over the networks that a rule reaches into, for so many rounds: `none` where a network
is found. -/
def subnetLoop (dirAllowPrivateAddresses : Bool) (p : AddrPolicy) (last : BitVec 32) :
    ℕ → BitVec 32 → List ℕ → Except GeneralExitError (Option (List ℕ))
  | 0, _, _ => .error .stillRunning
  | rounds + 1, i, subnetStatus =>
    if i ≤ last then
      match subnetStatus[i.toNat]? with
      | none => .error .outOfBounds
      | some status =>
        -- some part of this network is rejected, or it is local or not routable
        if status ≠ 0 ∨ localSubnet dirAllowPrivateAddresses i then
          subnetLoop dirAllowPrivateAddresses p last rounds (i + 1) subnetStatus
        else
          match p.policyType with
          | .accept =>
            if 8 < p.maskbits then
              subnetLoop dirAllowPrivateAddresses p last rounds (i + 1) subnetStatus
            else .ok none
          | .reject =>
            subnetLoop dirAllowPrivateAddresses p last rounds (i + 1) (subnetStatus.set i.toNat 1)
    else .ok (some subnetStatus)

/-- The mask of a rule. -/
def AddrPolicy.mask (p : AddrPolicy) : BitVec 32 :=
  if p.maskbits ≠ 0 then BitVec.allOnes 32 <<< (32 - p.maskbits) else 0

/-- The first network that a rule reaches into. -/
def AddrPolicy.firstSubnet (p : AddrPolicy) : BitVec 32 :=
  (p.mask &&& torAddrToIpv4h p.addr) >>> 24

/-- The last one. -/
def AddrPolicy.lastSubnet (p : AddrPolicy) : BitVec 32 :=
  (~~~((p.mask &&& torAddrToIpv4h p.addr) ^^^ p.mask)) >>> 24

/-- The loop over the rules. -/
def generalExitLoop (dirAllowPrivateAddresses : Bool) (rounds : ℕ) (port : ℤ) :
    List ℕ → List AddrPolicy → Except GeneralExitError Bool
  | _, [] => .ok false
  | subnetStatus, p :: policy =>
    if p.addr.family ≠ .inet then
      generalExitLoop dirAllowPrivateAddresses rounds port subnetStatus policy
    else if p.prtMin > port ∨ p.prtMax < port then
      generalExitLoop dirAllowPrivateAddresses rounds port subnetStatus policy
    else do
      torAssert (p.maskbits ≤ 32) .maskbits
      match ← subnetLoop dirAllowPrivateAddresses p p.lastSubnet rounds p.firstSubnet
          subnetStatus with
      | none => return true
      | some subnetStatus =>
        generalExitLoop dirAllowPrivateAddresses rounds port subnetStatus policy

/-- `exit_policy_is_general_exit_helper` -/
def exitPolicyIsGeneralExitHelper (dirAllowPrivateAddresses : Bool) (rounds : ℕ)
    (policy : List AddrPolicy) (port : ℤ) : Except GeneralExitError Bool :=
  generalExitLoop dirAllowPrivateAddresses rounds port (List.replicate 256 0) policy

/-! ## The networks of a rule -/

/-- An address of IPv4 has 32 bits. -/
def TorAddr.WellFormed : TorAddr → Prop
  | .inet a => a < 2 ^ 32
  | _ => True

section Subnets

variable {p : AddrPolicy} {a ip n : ℕ}

theorem mask_eq : p.mask = netMask 32 p.maskbits := by
  unfold AddrPolicy.mask netMask
  split_ifs with hzero
  · rfl
  · rw [not_not.mp hzero]
    decide

theorem firstSubnet_eq (haddr : p.addr = .inet ip) (hip : ip < 2 ^ 32) :
    p.firstSubnet.toNat
      = ip / 2 ^ (32 - p.maskbits) * 2 ^ (32 - p.maskbits) / 2 ^ 24 := by
  have hword : (torAddrToIpv4h p.addr).toNat = ip := by
    rw [haddr, torAddrToIpv4h, BitVec.toNat_ofNat, Nat.mod_eq_of_lt hip]
  unfold AddrPolicy.firstSubnet
  rw [mask_eq, BitVec.toNat_ushiftRight, Nat.shiftRight_eq_div_pow]
  change (netFirst (netMask 32 p.maskbits) (torAddrToIpv4h p.addr)).toNat / 2 ^ 24 = _
  rw [toNat_netFirst, hword]

theorem lastSubnet_eq (h : p.maskbits ≤ 32) (haddr : p.addr = .inet ip) (hip : ip < 2 ^ 32) :
    p.lastSubnet.toNat
      = (ip / 2 ^ (32 - p.maskbits) * 2 ^ (32 - p.maskbits) + (2 ^ (32 - p.maskbits) - 1))
        / 2 ^ 24 := by
  have hword : (torAddrToIpv4h p.addr).toNat = ip := by
    rw [haddr, torAddrToIpv4h, BitVec.toNat_ofNat, Nat.mod_eq_of_lt hip]
  unfold AddrPolicy.lastSubnet
  rw [mask_eq, BitVec.toNat_ushiftRight, Nat.shiftRight_eq_div_pow]
  change (netLast (netMask 32 p.maskbits) (torAddrToIpv4h p.addr)).toNat / 2 ^ 24 = _
  rw [toNat_netLast h, hword]

theorem lastSubnet_lt : p.lastSubnet.toNat < 256 := by
  unfold AddrPolicy.lastSubnet
  rw [BitVec.toNat_ushiftRight, Nat.shiftRight_eq_div_pow]
  omega

/-- What a rule covers is the addresses with the same high part. -/
theorem coversAddr_inet_iff (h : p.maskbits ≤ 32) (haddr : p.addr = .inet ip)
    (ha : a < 2 ^ 32) (hip : ip < 2 ^ 32) :
    p.coversAddr (.inet a) = true
      ↔ a / 2 ^ (32 - p.maskbits) = ip / 2 ^ (32 - p.maskbits) := by
  rw [AddrPolicy.coversAddr, decide_eq_true_iff, haddr, torAddrCompareMasked]
  split_ifs with hzero
  · rw [hzero, Nat.sub_zero, Nat.div_eq_of_lt ha, Nat.div_eq_of_lt hip]
    simp
  · rw [cmpNum_eq_zero, min_eq_left h, Nat.shiftRight_eq_div_pow, Nat.shiftRight_eq_div_pow]

/-- A rule reaches into the network of each address that it covers. -/
theorem between_subnets (h : p.maskbits ≤ 32) (haddr : p.addr = .inet ip) (ha : a < 2 ^ 32)
    (hip : ip < 2 ^ 32) (hcov : p.coversAddr (.inet a) = true) :
    p.firstSubnet.toNat ≤ a / 2 ^ 24 ∧ a / 2 ^ 24 ≤ p.lastSubnet.toNat := by
  have hwords := between_netWords_iff.mpr ((coversAddr_inet_iff h haddr ha hip).mp hcov)
  rw [firstSubnet_eq haddr hip, lastSubnet_eq h haddr hip]
  exact ⟨Nat.div_le_div_right hwords.1, Nat.div_le_div_right hwords.2⟩

/-- A rule of at most eight bits covers each network that it reaches into. -/
theorem coversAddr_of_between (h : p.maskbits ≤ 8) (haddr : p.addr = .inet ip) (ha : a < 2 ^ 32)
    (hip : ip < 2 ^ 32) (hfirst : p.firstSubnet.toNat ≤ a / 2 ^ 24)
    (hlast : a / 2 ^ 24 ≤ p.lastSubnet.toNat) : p.coversAddr (.inet a) = true := by
  have h32 : p.maskbits ≤ 32 := by omega
  rw [coversAddr_inet_iff h32 haddr ha hip]
  rw [firstSubnet_eq haddr hip] at hfirst
  rw [lastSubnet_eq h32 haddr hip] at hlast
  exact block_of_between (by omega) hfirst hlast rfl

end Subnets

/-! ## The search is sound -/

section Search

variable {allow : Bool} {p : AddrPolicy} {policy : List AddrPolicy} {status : List ℕ}
variable {last i : BitVec 32} {rounds : ℕ} {port : ℤ}

/-- What the loop over the networks of a rule does from `i` on: it ends, with a network that the
rule accepts whole, or with a mark on each of them if the rule rejects. -/
structure SubnetLoopOk (allow : Bool) (p : AddrPolicy) (last i : BitVec 32) (status : List ℕ)
    (result : Except GeneralExitError (Option (List ℕ))) : Prop where
  ends : ∃ found, result = .ok found
  found : result = .ok none → p.policyType = .accept ∧ p.maskbits ≤ 8
    ∧ ∃ j : BitVec 32, i ≤ j ∧ j ≤ last ∧ status[j.toNat]? = some 0 ∧ localSubnet allow j = false
  marked : ∀ status', result = .ok (some status') → status'.length = 256
    ∧ ∀ j : BitVec 32, status'[j.toNat]? = some 0 → status[j.toNat]? = some 0
      ∧ (p.policyType = .reject → i ≤ j → j ≤ last → localSubnet allow j = true)

theorem subnetLoop_ok (hlen : status.length = 256) (hlast : last.toNat < 256)
    (hi : i.toNat ≤ last.toNat + 1) (hrounds : 257 ≤ rounds + i.toNat) :
    SubnetLoopOk allow p last i status (subnetLoop allow p last rounds i status) := by
  induction rounds generalizing i status with
  | zero => omega
  | succ rounds ih =>
    unfold subnetLoop
    by_cases hle : i ≤ last
    · have hin : i.toNat ≤ last.toNat := hle
      have hsucc : (i + 1).toNat = i.toNat + 1 := by
        rw [BitVec.toNat_add]
        exact Nat.mod_eq_of_lt (by change i.toNat + 1 < 2 ^ 32; omega)
      -- the rounds behind `i`, where the table is as before but for a mark on `i`
      have hnext : ∀ status₁ : List ℕ, status₁.length = 256 →
          (∀ j : ℕ, status₁[j]? = some 0 → status[j]? = some 0) →
          (p.policyType = .reject → status₁[i.toNat]? = some 0 → localSubnet allow i = true) →
          SubnetLoopOk allow p last i status (subnetLoop allow p last rounds (i + 1) status₁) := by
        intro status₁ hlen₁ hkeep hmark
        have hrest : SubnetLoopOk allow p last (i + 1) status₁ _ :=
          ih hlen₁ (by omega) (by omega)
        refine ⟨hrest.ends, fun hfound => ?_, fun status' hres => ?_⟩
        · obtain ⟨htype, hmask, j, hij, hjl, hj, hlocal⟩ := hrest.found hfound
          have hij' : i ≤ j := by
            rw [BitVec.le_def] at hij ⊢
            omega
          exact ⟨htype, hmask, j, hij', hjl, hkeep _ hj, hlocal⟩
        · obtain ⟨hlen', hmarks⟩ := hrest.marked status' hres
          refine ⟨hlen', fun j hj => ⟨hkeep _ (hmarks j hj).1, fun htype hij hjl => ?_⟩⟩
          by_cases heq : j = i
          · subst heq
            exact hmark htype (hmarks j hj).1
          · refine (hmarks j hj).2 htype ?_ hjl
            have hne : j.toNat ≠ i.toNat := fun h => heq (BitVec.eq_of_toNat_eq h)
            rw [BitVec.le_def] at hij ⊢
            omega
      obtain ⟨st, hst⟩ : ∃ st, status[i.toNat]? = some st :=
        ⟨_, List.getElem?_eq_getElem (by omega)⟩
      rw [if_pos hle, hst]
      dsimp only
      by_cases hskip : st ≠ 0 ∨ localSubnet allow i = true
      · rw [if_pos hskip]
        refine hnext status hlen (fun _ hj => hj) fun _ hzero => ?_
        refine hskip.resolve_left fun hne => hne ?_
        rw [hst] at hzero
        exact Option.some.inj hzero
      · rw [if_neg hskip]
        rw [not_or, not_not] at hskip
        cases htype : p.policyType with
        | accept =>
          dsimp only
          split_ifs with hnarrow
          · exact hnext status hlen (fun _ hj => hj) fun h => by rw [htype] at h; cases h
          · refine ⟨⟨_, rfl⟩, fun _ => ⟨htype, by omega, i, ?_⟩, fun _ h => by cases h⟩
            exact ⟨BitVec.le_refl i, hle, hskip.1 ▸ hst, by simpa using hskip.2⟩
        | reject =>
          refine hnext _ (by rw [List.length_set, hlen]) (fun j hj => ?_) fun _ hzero => ?_
          · rw [List.getElem?_set] at hj
            split_ifs at hj with heq
            · cases hj
            · exact hj
          · rw [List.getElem?_set_self (by omega)] at hzero
            cases hzero
    · rw [if_neg hle]
      refine ⟨⟨_, rfl⟩, (fun h => by cases h), fun status' h => ?_⟩
      obtain rfl := Option.some.inj (Except.ok.inj h)
      exact ⟨hlen, fun j hj => ⟨hj, fun _ hij hjl => absurd (BitVec.le_trans hij hjl) hle⟩⟩

/-- A network without a mark that is not left out: no rule so far rejects any of its addresses at
the port. -/
structure Marked (allow : Bool) (port : ℤ) (front : List AddrPolicy) (status : List ℕ) : Prop where
  length : status.length = 256
  accept : ∀ net : BitVec 32, status[net.toNat]? = some 0 → localSubnet allow net = false →
    ∀ a : ℕ, a < 2 ^ 32 → a / 2 ^ 24 = net.toNat →
      ∀ q ∈ front, q.coversAddr (.inet a) = true → (q.prtMin : ℤ) ≤ port → port ≤ q.prtMax →
        q.policyType = .accept

/-- Rules for another family or other ports leave no mark. -/
theorem Marked.skip {front : List AddrPolicy} (h : Marked allow port front status)
    (hskip : p.addr.family ≠ .inet ∨ ¬ ((p.prtMin : ℤ) ≤ port ∧ port ≤ p.prtMax)) :
    Marked allow port (front ++ [p]) status := by
  refine ⟨h.length, fun net hnet hlocal a ha hdiv q hq hcov hlo hhi => ?_⟩
  rcases List.mem_append.mp hq with hq | hq
  · exact h.accept net hnet hlocal a ha hdiv q hq hcov hlo hhi
  · obtain rfl := List.mem_singleton.mp hq
    refine absurd hskip (not_or.mpr ⟨?_, not_not.mpr ⟨hlo, hhi⟩⟩)
    rw [AddrPolicy.coversAddr, decide_eq_true_iff] at hcov
    exact not_not.mpr (compareMasked_family hcov).symm

/-- The loop over its networks marks those that a rule reaches into. -/
theorem Marked.mark {front : List AddrPolicy} {status' : List ℕ}
    (h : Marked allow port front status) (hwf : p.addr.WellFormed) (hmask : p.maskbits ≤ 32)
    (hlen : status'.length = 256)
    (hmarks : ∀ j : BitVec 32, status'[j.toNat]? = some 0 → status[j.toNat]? = some 0
      ∧ (p.policyType = .reject → p.firstSubnet ≤ j → j ≤ p.lastSubnet →
        localSubnet allow j = true)) :
    Marked allow port (front ++ [p]) status' := by
  refine ⟨hlen, fun net hnet hlocal a ha hdiv q hq hcov hlo hhi => ?_⟩
  obtain ⟨hold, hrej⟩ := hmarks net hnet
  rcases List.mem_append.mp hq with hq | hq
  · exact h.accept net hold hlocal a ha hdiv q hq hcov hlo hhi
  · obtain rfl := List.mem_singleton.mp hq
    cases htype : q.policyType with
    | accept => rfl
    | reject =>
      -- it reaches into the network of the address, and this would be marked
      have hfamily := hcov
      rw [AddrPolicy.coversAddr, decide_eq_true_iff] at hfamily
      obtain ⟨ip, haddr⟩ : ∃ ip, q.addr = .inet ip := by
        have := compareMasked_family hfamily
        cases haddr : q.addr <;> simp [haddr, TorAddr.family] at this ⊢
      have hip : ip < 2 ^ 32 := by
        rw [haddr] at hwf
        exact hwf
      have hbetween := between_subnets hmask haddr ha hip hcov
      rw [hdiv] at hbetween
      rw [hrej htype hbetween.1 hbetween.2] at hlocal
      cases hlocal

/-- The loop over the rules keeps the marks, and what it finds is accepted. -/
theorem generalExitLoop_ok {front : List AddrPolicy} (hwf : ∀ p ∈ policy, p.addr.WellFormed)
    (hrounds : 257 ≤ rounds) (h : Marked allow port front status) :
    (∀ e, generalExitLoop allow rounds port status policy = .error e → e = .maskbits)
      ∧ (generalExitLoop allow rounds port status policy = .ok true →
        ∃ net < 256, ∀ a : ℕ, a / 2 ^ 24 = net →
          policyVerdict (front ++ policy) (.inet a, port.toNat) = .accept) := by
  induction policy generalizing front status with
  | nil =>
    unfold generalExitLoop
    exact ⟨fun e he => (by cases he), fun he => (by cases he)⟩
  | cons p policy ih =>
    obtain ⟨hp, hwf⟩ := List.forall_mem_cons.mp hwf
    unfold generalExitLoop
    rw [List.append_cons]
    by_cases hfamily : p.addr.family ≠ .inet
    · rw [if_pos hfamily]
      exact ih hwf (h.skip (.inl hfamily))
    by_cases hport : (p.prtMin : ℤ) > port ∨ (p.prtMax : ℤ) < port
    · rw [if_neg hfamily, if_pos hport]
      exact ih hwf (h.skip (.inr (by omega)))
    rw [if_neg hfamily, if_neg hport]
    by_cases hmask : p.maskbits ≤ 32
    · obtain ⟨ip, haddr⟩ : ∃ ip, p.addr = .inet ip := by
        cases haddr : p.addr <;> simp [haddr, TorAddr.family] at hfamily ⊢
      have hip : ip < 2 ^ 32 := by
        rw [haddr] at hp
        exact hp
      have hwords : p.firstSubnet.toNat ≤ p.lastSubnet.toNat := by
        rw [firstSubnet_eq haddr hip, lastSubnet_eq hmask haddr hip]
        exact Nat.div_le_div_right (Nat.le_add_right _ _)
      have hlast := lastSubnet_lt (p := p)
      have hloop : SubnetLoopOk allow p p.lastSubnet p.firstSubnet status
          (subnetLoop allow p p.lastSubnet rounds p.firstSubnet status) :=
        subnetLoop_ok h.length hlast (by omega) (by omega)
      rw [torAssert, if_pos hmask]
      obtain ⟨found, hfound⟩ := hloop.ends
      cases found with
      | some status' =>
        obtain ⟨hlen, hmarks⟩ := hloop.marked status' hfound
        have hrest := ih hwf (h.mark hp hmask hlen hmarks)
        rw [hfound]
        exact hrest
      | none =>
        obtain ⟨htype, hwide, net, hfirst, hle, hnet, hlocal⟩ := hloop.found hfound
        rw [hfound]
        refine ⟨fun e he => (by cases he), fun _ => ⟨net.toNat, ?_, fun a hdiv => ?_⟩⟩
        · rw [BitVec.le_def] at hle
          omega
        · rw [BitVec.le_def] at hfirst hle
          have ha : a < 2 ^ 32 := by omega
          rw [← hdiv] at hfirst hle
          have hcov := coversAddr_of_between hwide haddr ha hip hfirst hle
          rw [← List.append_cons]
          refine firstMatch_append_of_agree (fun q hq hqcov => ?_) ?_ htype
          · rw [AddrPolicy.covers, Bool.and_eq_true, AddrPolicy.coversPort, Bool.and_eq_true,
              decide_eq_true_iff, decide_eq_true_iff] at hqcov
            exact h.accept net hnet hlocal a ha hdiv q hq hqcov.1 (by omega) (by omega)
          · rw [AddrPolicy.covers, hcov, AddrPolicy.coversPort, Bool.true_and, Bool.and_eq_true,
              decide_eq_true_iff, decide_eq_true_iff]
            omega
    · rw [torAssert, if_neg hmask]
      refine ⟨fun e he => ?_, fun he => (by cases he)⟩
      cases he
      rfl

end Search

/-- **The test for a general exit is sound.** The search ends with enough rounds for the table and
within it, and where it finds something a whole network of eight bits is accepted. -/
theorem general_exit_sound {policy : List AddrPolicy} (hwf : ∀ p ∈ policy, p.addr.WellFormed)
    (dirAllowPrivateAddresses : Bool) {rounds : ℕ} (hrounds : 257 ≤ rounds) (port : ℤ) :
    (∀ e, exitPolicyIsGeneralExitHelper dirAllowPrivateAddresses rounds policy port = .error e →
        e = .maskbits)
      ∧ (exitPolicyIsGeneralExitHelper dirAllowPrivateAddresses rounds policy port = .ok true →
        ∃ net < 256, ∀ a : ℕ, a / 2 ^ 24 = net →
          compareKnownTorAddrToAddrPolicy (.inet a) port.toNat policy = .accepted) := by
  have hstart : Marked dirAllowPrivateAddresses port [] (List.replicate 256 0) :=
    ⟨List.length_replicate, fun _ _ _ _ _ _ q hq => absurd hq List.not_mem_nil⟩
  have hloop := generalExitLoop_ok hwf hrounds hstart
  refine ⟨hloop.1, fun h => ?_⟩
  obtain ⟨net, hnet, haccept⟩ := hloop.2 h
  refine ⟨net, hnet, fun a hdiv => ?_⟩
  rw [compareKnown_eq]
  exact congrArg PolicyAction.result (haccept a hdiv)

/-- The policy `reject 18.0.0.0/7:80, accept *4:*`. -/
def rejectTwoNets : List AddrPolicy :=
  [⟨.reject, false, 7, .inet 301989888, 80, 80⟩, ⟨.accept, false, 0, .inet 0, 1, 65535⟩]

/-- Of it some other network is found. -/
theorem general_exit_sound_two :
    ∃ net < 256, ∀ a : ℕ, a / 2 ^ 24 = net →
      compareKnownTorAddrToAddrPolicy (.inet a) (80 : ℤ).toNat rejectTwoNets = .accepted := by
  have hwf : ∀ p ∈ rejectTwoNets, p.addr.WellFormed := by
    intro p hp
    fin_cases hp <;> simp [TorAddr.WellFormed]
  exact (general_exit_sound hwf false (le_refl 257) 80).2 (by decide)

end Dittor.Tor

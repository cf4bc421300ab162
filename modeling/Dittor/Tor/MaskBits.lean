import Mathlib
import Dittor.Lib.BitPrefix
import Dittor.Lib.Signed
import Dittor.Tor.PolicyMatch

/-!
# What a written mask matches (`address.c`)

An address is matched under a mask of `m` bits exactly if its first `m` bits are the same
(`compareMasked_iff`), so two masks match the same addresses only if they are equal up to the
length of an address (`sharesBits_congr_iff`).

`tor_addr_parse_mask_ports` takes a mask as it is written, with two exceptions
(`matchesFirst_written_iff`). The number is cut to 32 bits before it is checked. And for a mapped address
of IPv4 it is moved behind the first 96 bits by its remainder modulo 32, which makes 96 of the
masks 32 and 128 that stand for the whole address.
-/

namespace Dittor.Tor

open Dittor.Lib

/-! ## The bits of an address -/

/-- A bit of an address, from the first on. -/
def TorAddr.bit : TorAddr → ℕ → Bool
  | .unspec, _ => false
  | .inet a, i => i < 32 && a.testBit (31 - i)
  | .inet6 words, i => i < 128 && (words[i / 16]?.getD 0).testBit (15 - i % 16)

/-- How many there are. -/
def TorAddr.width : TorAddr → ℕ
  | .unspec => 0
  | .inet _ => 32
  | .inet6 _ => 128

/-- The first `m` bits are the same. -/
def SharesBits (m : ℕ) (a b : TorAddr) : Prop := ∀ i < m, a.bit i = b.bit i

/-- An address has as many bits as its family. -/
def TorAddr.InBits : TorAddr → Prop
  | .unspec => True
  | .inet a => a < 2 ^ 32
  | .inet6 words => words.length = 8 ∧ ∀ w ∈ words, w < 2 ^ 16

/-- The address with one bit changed. -/
def TorAddr.flip : TorAddr → ℕ → TorAddr
  | .unspec, _ => .unspec
  | .inet a, k => .inet (a ^^^ 2 ^ (31 - k))
  | .inet6 words, k => .inet6 (words.modify (k / 16) fun w => w ^^^ 2 ^ (15 - k % 16))

section Bits

variable {a b : TorAddr} {words words' : List ℕ} {i k l m : ℕ}

theorem getElem?_in6Addr8 {j : ℕ} :
    (in6Addr8 words)[j]? = words[j / 2]?.map fun w =>
      UInt8.ofNat (if j % 2 = 0 then w / 256 else w) := by
  induction words generalizing j with
  | nil => rfl
  | cons w words ih =>
    unfold in6Addr8 at ih ⊢
    rw [List.flatMap_cons]
    match j with
    | 0 => rfl
    | 1 => rfl
    | j + 2 =>
      rw [show (j + 2) / 2 = j / 2 + 1 by omega, Nat.add_mod_right, List.getElem?_cons_succ, ← ih]
      rfl

/-- The bytes of an address have its bits. -/
theorem bitOf_in6Addr8 (hi : i < 128) :
    bitOf (in6Addr8 words) i = (TorAddr.inet6 words).bit i := by
  rw [bitOf, TorAddr.bit, decide_eq_true hi, Bool.true_and, getElem?_in6Addr8, show i / 8 / 2 = i / 16 by omega]
  cases words[i / 16]? with
  | none => simp
  | some w =>
    simp only [Option.map_some, Option.getD_some]
    rw [UInt8.toNat_ofNat', Nat.testBit_mod_two_pow]
    have hlow : 7 - i % 8 < 8 := by omega
    split
    next heven =>
      rw [show (256 : ℕ) = 2 ^ 8 by rfl, Nat.testBit_div_two_pow]
      simp only [hlow, decide_true, Bool.true_and]
      congr 1
      omega
    next hodd =>
      simp only [hlow, decide_true, Bool.true_and]
      congr 1
      omega

theorem length_in6Addr8 : (in6Addr8 words).length = 2 * words.length := by
  unfold in6Addr8
  induction words with
  | nil => rfl
  | cons w words ih =>
    rw [List.flatMap_cons, List.length_append, ih, List.length_cons]
    simp
    omega

/-- Bits behind the last one are all the same. -/
theorem bit_of_width_le (h : a.width ≤ i) : a.bit i = false := by
  cases a with
  | unspec => rfl
  | inet ip => simp [TorAddr.bit, not_lt.mpr (show 32 ≤ i from h)]
  | inet6 words => simp [TorAddr.bit, not_lt.mpr (show 128 ≤ i from h)]

theorem width_eq (h : a.family = b.family) : a.width = b.width := by
  cases a <;> cases b <;> first | rfl | cases h

/-- Only the bits that there are matter. -/
theorem sharesBits_min (h : a.family = b.family) :
    SharesBits (min m b.width) a b ↔ SharesBits m a b := by
  refine ⟨fun hshare i hi => ?_, fun hshare i hi => hshare i (by omega)⟩
  by_cases hin : i < b.width
  · exact hshare i (by omega)
  · have hwidth := width_eq h
    rw [bit_of_width_le (by omega), bit_of_width_le (by omega)]

/-- **An address is matched** if the bits under the mask are the same. -/
theorem compareMasked_iff (ha : a.InBits) (hb : b.InBits) :
    torAddrCompareMasked a b m = 0 ↔ a.family = b.family ∧ SharesBits m a b := by
  by_cases hfamily : a.family = b.family
  swap
  · exact ⟨fun h => absurd (compareMasked_family h) hfamily, fun h => absurd h.1 hfamily⟩
  rw [and_iff_right hfamily, ← sharesBits_min hfamily]
  cases a <;> cases b <;> simp only [TorAddr.family, reduceCtorEq] at hfamily
  case unspec.unspec =>
    exact ⟨fun _ i hi => rfl, fun _ => rfl⟩
  case inet.inet x y =>
    have hwords := shiftRight_eq_iff (k := min m 32) ha hb (min_le_right _ _)
    rw [torAddrCompareMasked]
    split_ifs with hzero
    · simp [hzero, SharesBits]
    · rw [cmpNum_eq_zero, hwords]
      refine forall_congr' fun i => forall_congr' fun hi => ?_
      have hin : i < 32 := by
        have := min_le_right m 32
        omega
      simp [TorAddr.bit, hin]
  case inet6.inet6 x y =>
    have hlen : (in6Addr8 x).length = (in6Addr8 y).length := by
      rw [length_in6Addr8, length_in6Addr8, ha.1, hb.1]
    rw [torAddrCompareMasked, compareIn6_eq_zero]
    refine (leading_eq_iff hlen).trans (forall_congr' fun i => forall_congr' fun hi => ?_)
    have hin : i < 128 := by
      have := min_le_right m 128
      omega
    rw [bitOf_in6Addr8 hin, bitOf_in6Addr8 hin]

/-- A changed bit. -/
theorem bit_flip (h : a.InBits) (hk : k < a.width) (hi : i < a.width) :
    (a.flip k).bit i = if i = k then !a.bit i else a.bit i := by
  cases a with
  | unspec => exact absurd hk (Nat.not_lt_zero k)
  | inet ip =>
    have hi32 : i < 32 := hi
    have hk32 : k < 32 := hk
    rw [TorAddr.flip, TorAddr.bit, TorAddr.bit, Nat.testBit_xor, Nat.testBit_two_pow]
    by_cases heq : i = k
    · simp [heq, hk32]
    · have hne : 31 - k ≠ 31 - i := by omega
      simp [heq, hne]
  | inet6 words =>
    have hi128 : i < 128 := hi
    have hk128 : k < 128 := hk
    have hword : i / 16 < words.length := by
      rw [h.1]
      omega
    rw [TorAddr.flip, TorAddr.bit, TorAddr.bit, decide_eq_true hi128, Bool.true_and, Bool.true_and,
      List.getElem?_modify, List.getElem?_eq_getElem hword]
    by_cases hsame : k / 16 = i / 16
    · simp only [if_pos hsame, Option.map_eq_map, Option.map_some, Option.getD_some,
        Nat.testBit_xor, Nat.testBit_two_pow]
      by_cases heq : i = k
      · simp [heq]
      · have hne : 15 - k % 16 ≠ 15 - i % 16 := by omega
        simp [heq, hne]
    · have hne : i ≠ k := fun heq => hsame (by rw [heq])
      simp [hsame, hne]

/-- Changing a bit keeps the bits within the address. -/
theorem inBits_flip (h : a.InBits) (hk : k < a.width) :
    (a.flip k).InBits ∧ (a.flip k).family = a.family := by
  cases a with
  | unspec => exact ⟨h, rfl⟩
  | inet ip =>
    have hbit : 2 ^ (31 - k) < 2 ^ 32 := Nat.pow_lt_pow_right (by decide) (by omega)
    exact ⟨Nat.xor_lt_two_pow h hbit, rfl⟩
  | inet6 words =>
    obtain ⟨hlen, hwords⟩ := h
    refine ⟨⟨by rw [List.length_modify]; exact hlen, fun w hw => ?_⟩, rfl⟩
    have hbit : 2 ^ (15 - k % 16) < 2 ^ 16 := Nat.pow_lt_pow_right (by decide) (by omega)
    obtain ⟨j, hj, rfl⟩ := List.mem_iff_getElem.mp hw
    rw [List.getElem_modify]
    split
    · exact Nat.xor_lt_two_pow (hwords _ (List.getElem_mem _)) hbit
    · exact hwords _ (List.getElem_mem _)

/-- **Two masks match the same addresses** only if they are the same up to the last bit. -/
theorem sharesBits_congr_iff (h : b.InBits) :
    (∀ a : TorAddr, a.InBits → a.family = b.family → (SharesBits k a b ↔ SharesBits l a b)) ↔
      min k b.width = min l b.width := by
  constructor
  · intro hsame
    -- the bit behind the shorter mask tells them apart
    have hshort : ∀ {k l : ℕ}, min k b.width < min l b.width →
        ¬ ∀ a : TorAddr, a.InBits → a.family = b.family → (SharesBits k a b ↔ SharesBits l a b) := by
      intro k l hlt hsame
      have hk : min k b.width < b.width := by omega
      obtain ⟨hin, hfamily⟩ := inBits_flip h hk
      have hfew : SharesBits k (b.flip (min k b.width)) b := by
        rw [← sharesBits_min hfamily]
        intro i hi
        rw [bit_flip h hk (by omega), if_neg (by omega)]
      have hmany := (hsame _ hin hfamily).mp hfew (min k b.width) (by omega)
      rw [bit_flip h hk hk, if_pos rfl] at hmany
      exact absurd hmany (by simp)
    rcases lt_trichotomy (min k b.width) (min l b.width) with hlt | heq | hlt
    · exact absurd hsame (hshort hlt)
    · exact heq
    · exact absurd (fun a ha hfamily => (hsame a ha hfamily).symm) (hshort hlt)
  · intro heq a _ hfamily
    rw [← sharesBits_min hfamily, heq, sharesBits_min hfamily]

end Bits

/-! ## Addresses that are read -/

section Parsed

theorem hexDecodeDigit_lt {b : UInt8} {v : ℕ} (h : hexDecodeDigit b = some v) : v < 16 := by
  have hall : ∀ n : Fin 256, ∀ v ∈ hexDecodeDigit (UInt8.ofNat n.val), v < 16 := by decide +kernel
  have hb := hall ⟨b.toNat, b.toNat_lt⟩ v
  rw [UInt8.ofNat_toNat] at hb
  exact hb h

/-- A word of at most `n` hexadecimal digits. -/
theorem hexValue_lt {digits : Bytes} : hexValue digits < 16 ^ digits.length := by
  induction digits using List.reverseRecOn with
  | nil => exact Nat.one_pos
  | append_singleton digits b ih =>
    have hdigit : (hexDecodeDigit b).getD 0 < 16 := by
      cases hb : hexDecodeDigit b with
      | none => exact Nat.zero_lt_succ _
      | some v => exact hexDecodeDigit_lt hb
    unfold hexValue at ih ⊢
    rw [List.foldl_append, List.length_append, List.length_singleton, pow_succ]
    show 16 * digits.foldl _ 0 + (hexDecodeDigit b).getD 0 < _
    omega

/-- The number of four octets. -/
theorem quadValue_lt {s : Bytes} {v : ℕ} (h : (scanQuad s).bind quadValue = some v) :
    v < 2 ^ 32 := by
  obtain ⟨octets, hscan, hvalue⟩ := Option.bind_eq_some_iff.mp h
  unfold scanQuad at hscan
  simp only [Option.bind_eq_bind, Option.bind_eq_some_iff] at hscan
  obtain ⟨⟨a, s₁⟩, -, ⟨b, s₂⟩, -, ⟨c, s₃⟩, -, ⟨d, s₄⟩, -, hend⟩ := hscan
  split at hend
  next =>
    obtain rfl := Option.some.inj hend
    unfold quadValue at hvalue
    split at hvalue
    next hle =>
      obtain rfl := Option.some.inj hvalue
      simp only [List.forall_mem_cons, List.foldl_cons, List.foldl_nil] at hle ⊢
      omega
    next => cases hvalue
  next => cases hend

theorem torInetAton_lt {s : Bytes} {a : ℕ} (h : torInetAton s = some a) : a < 2 ^ 32 := by
  unfold torInetAton at h
  obtain ⟨octets, hscan, h⟩ := Option.bind_eq_some_iff.mp h
  split at h
  next => cases h
  next => exact quadValue_lt (Option.bind_eq_some_iff.mpr ⟨octets, hscan, h⟩)

/-- The words that are read have sixteen bits. -/
theorem inetWords_lt {n : ℕ} {src : Bytes} {words words' : List ℕ} {gapPos gapPos' : Option ℕ}
    (h : inetWords n src words gapPos = some (words', gapPos')) (hwords : ∀ w ∈ words, w < 2 ^ 16) :
    ∀ w ∈ words', w < 2 ^ 16 := by
  have hsnoc : ∀ {words : List ℕ} {digits : Bytes}, (∀ w ∈ words, w < 2 ^ 16) →
      ¬ 4 < digits.length → ∀ w ∈ words ++ [hexValue digits], w < 2 ^ 16 := by
    intro words digits hall hlen w hw
    rcases List.mem_append.mp hw with hw | hw
    · exact hall w hw
    · rw [List.mem_singleton.mp hw]
      exact hexValue_lt.trans_le (Nat.pow_le_pow_right (n := 16) (by decide) (not_lt.mp hlen))
  induction n generalizing src words gapPos with
  | zero =>
    cases src with
    | nil =>
      obtain ⟨rfl, -⟩ := Prod.mk.inj (Option.some.inj h)
      exact hwords
    | cons b src => cases h
  | succ n ih =>
    cases src with
    | nil =>
      obtain ⟨rfl, -⟩ := Prod.mk.inj (Option.some.inj h)
      exact hwords
    | cons b src =>
      rw [inetWords] at h
      split at h
      next => cases h
      next =>
        split at h
        next =>
          dsimp only at h
          split at h
          next => cases h
          next hlen =>
            split at h
            next =>
              obtain ⟨rfl, -⟩ := Prod.mk.inj (Option.some.inj h)
              exact hsnoc hwords hlen
            next =>
              split at h
              next => exact ih h (hsnoc hwords hlen)
              next => cases h
        next =>
          split at h
          next => exact ih h hwords
          next =>
            split at h
            next => exact ih h hwords
            next => cases h

/-- Eight words, without a gap. -/
theorem inBits_append {read tail : List ℕ} (hread : ∀ w ∈ read, w < 2 ^ 16)
    (htail : ∀ w ∈ tail, w < 2 ^ 16) (hlen : read.length + tail.length = 8) :
    (TorAddr.inet6 (read ++ tail)).InBits :=
  ⟨by rw [List.length_append, hlen], List.forall_mem_append.mpr ⟨hread, htail⟩⟩

/-- Eight words, with a gap at `g`. -/
theorem inBits_gap {read tail : List ℕ} (hread : ∀ w ∈ read, w < 2 ^ 16)
    (htail : ∀ w ∈ tail, w < 2 ^ 16) (hlen : read.length + tail.length < 8) (g : ℕ) :
    (TorAddr.inet6 (read.take g ++ List.replicate (8 - (read.length + tail.length)) 0
      ++ read.drop g ++ tail)).InBits := by
  constructor
  · simp only [List.length_append, List.length_take, List.length_replicate, List.length_drop]
    omega
  · simp only [List.forall_mem_append]
    refine ⟨⟨⟨fun w hw => hread w (List.mem_of_mem_take hw), fun w hw => ?_⟩,
      fun w hw => hread w (List.mem_of_mem_drop hw)⟩, htail⟩
    rw [List.eq_of_mem_replicate hw]
    decide

theorem torInetPton6_inBits {s : Bytes} {words : List ℕ} (h : torInetPton6 s = some words) :
    (TorAddr.inet6 words).InBits := by
  unfold torInetPton6 at h
  split at h
  next => cases h
  next =>
    obtain ⟨⟨front, dotted⟩, -, h⟩ := Option.bind_eq_some_iff.mp h
    have hwords : ∀ {read gapPos}, inetWords front.length front [] none = some (read, gapPos) →
        ∀ w ∈ read, w < 2 ^ 16 :=
      fun hread => inetWords_lt hread fun w hw => absurd hw List.not_mem_nil
    cases dotted with
    | none =>
      obtain ⟨tail, hnil, h⟩ := Option.bind_eq_some_iff.mp h
      obtain rfl := Option.some.inj hnil
      obtain ⟨⟨read, gapPos⟩, hread, h⟩ := Option.bind_eq_some_iff.mp h
      have htail : ∀ w ∈ ([] : List ℕ), w < 2 ^ 16 := fun w hw => absurd hw List.not_mem_nil
      cases gapPos with
      | none =>
        obtain ⟨hlen, h⟩ := Option.ite_none_right_eq_some.mp h
        exact Option.some.inj h ▸ inBits_append (hwords hread) htail hlen
      | some g =>
        obtain ⟨hlen, h⟩ := Option.ite_none_right_eq_some.mp h
        exact Option.some.inj h ▸ inBits_gap (hwords hread) htail hlen g
    | some text =>
      -- the dotted end has two words
      obtain ⟨tail, htail, h⟩ := Option.bind_eq_some_iff.mp h
      obtain ⟨v, hv, rfl⟩ := Option.map_eq_some_iff.mp htail
      obtain ⟨⟨read, gapPos⟩, hread, h⟩ := Option.bind_eq_some_iff.mp h
      have hlt := quadValue_lt hv
      have htail : ∀ w ∈ [v / 65536, v % 65536], w < 2 ^ 16 := by
        simp only [List.forall_mem_cons]
        exact ⟨by omega, by omega, fun w hw => absurd hw List.not_mem_nil⟩
      cases gapPos with
      | none =>
        obtain ⟨hlen, h⟩ := Option.ite_none_right_eq_some.mp h
        exact Option.some.inj h ▸ inBits_append (hwords hread) htail hlen
      | some g =>
        obtain ⟨hlen, h⟩ := Option.ite_none_right_eq_some.mp h
        exact Option.some.inj h ▸ inBits_gap (hwords hread) htail hlen g

theorem parseAddress_inBits {flags : StarFlags} {s : Bytes} {addr : TorAddr} {anyFlag : Bool}
    (h : parseAddress flags s = some (addr, anyFlag)) : addr.InBits := by
  have hnil : (TorAddr.inet6 nilWords).InBits := ⟨rfl, by decide⟩
  have hzero : (TorAddr.inet 0).InBits := Nat.two_pow_pos 32
  unfold parseAddress at h
  split_ifs at h
  · obtain ⟨rfl, -⟩ := Prod.mk.inj (Option.some.inj h)
    exact hnil
  · obtain ⟨rfl, -⟩ := Prod.mk.inj (Option.some.inj h)
    exact trivial
  · obtain ⟨rfl, -⟩ := Prod.mk.inj (Option.some.inj h)
    exact hzero
  · obtain ⟨rfl, -⟩ := Prod.mk.inj (Option.some.inj h)
    exact hzero
  · obtain ⟨rfl, -⟩ := Prod.mk.inj (Option.some.inj h)
    exact hnil
  · split at h
    next words hwords =>
      obtain ⟨rfl, -⟩ := Prod.mk.inj (Option.some.inj h)
      exact torInetPton6_inBits hwords
    next =>
      obtain ⟨a, ha, heq⟩ := Option.map_eq_some_iff.mp h
      obtain ⟨rfl, -⟩ := Prod.mk.inj heq
      exact torInetAton_lt ha

end Parsed

/-! ## Masks as they are written -/

/-- The text of a mask of `m` bits: a number, or a dotted address with the first `m` bits set. -/
def MaskText (mask : Bytes) (m : ℕ) : Prop :=
  strtol mask = some ((m : ℤ), []) ∨ m ≤ 32 ∧ torInetAton mask = some (2 ^ 32 - 2 ^ (32 - m))

/-- A pattern with an explicit mask of `m` bits. -/
def WrittenMask (s : Bytes) (m : ℕ) : Prop :=
  ∃ parts mask, splitAddr s = some parts ∧ parts.mask = some mask ∧ MaskText mask m

/-- The leading bits that the mask is about: for a mapped address of IPv4 it may be that of an
address of IPv4. -/
def meantBits (addr : TorAddr) (m : ℕ) : ℕ :=
  match addr with
  | .inet6 words => if isV4Mapped words ∧ m ≤ 32 then 96 + m else m
  | _ => m

/-- Under `maskbits` are matched the addresses of the family with the same first `m` bits. -/
def MatchesFirst (addr : TorAddr) (maskbits m : ℕ) : Prop :=
  ∀ a : TorAddr, a.InBits →
    (torAddrCompareMasked a addr maskbits = 0 ↔ a.family = addr.family ∧ SharesBits m a addr)

/-- A mask that is taken as it is written. -/
def MaskKept (addr : TorAddr) (m : ℕ) : Prop :=
  match addr with
  | .unspec => True
  | .inet _ => m ≤ 32 ∨ m % 2 ^ 32 = 32
  | .inet6 words =>
    if isV4Mapped words then m < 128 ∧ m ≠ 32 else m ≤ 128 ∨ m % 2 ^ 32 = 128

section Written

variable {addr : TorAddr} {mask : Bytes} {m v bits : ℕ} {family : Family}

theorem matchesFirst_iff (h : addr.InBits) :
    MatchesFirst addr bits m ↔ min bits addr.width = min m addr.width := by
  rw [← sharesBits_congr_iff h]
  refine forall_congr' fun a => forall_congr' fun ha => ?_
  rw [compareMasked_iff ha h]
  exact and_congr_right_iff

/-- A dotted text begins with digits and a dot. -/
theorem torInetAton_start {s : Bytes} {a : ℕ} (h : torInetAton s = some a) :
    ∃ digits rest, s = digits ++ byte '.' :: rest ∧ digits ≠ [] ∧ ∀ b ∈ digits, isDigit b = true := by
  unfold torInetAton at h
  obtain ⟨octets, hscan, -⟩ := Option.bind_eq_some_iff.mp h
  unfold scanQuad at hscan
  simp only [Option.bind_eq_bind, Option.bind_eq_some_iff] at hscan
  obtain ⟨⟨digits, behind⟩, hoctet, ⟨next, -⟩, ⟨rest, hdot, -⟩, -⟩ := hscan
  unfold scanOctet at hoctet
  dsimp only at hoctet hdot
  split at hoctet
  next => cases hoctet
  next hne =>
    obtain ⟨rfl, rfl⟩ := Prod.mk.inj (Option.some.inj hoctet)
    have hstart : (s.take 3).takeWhile isDigit <+: s :=
      (List.takeWhile_prefix _).trans (List.take_prefix 3 s)
    have hdigits : ∀ b ∈ (s.take 3).takeWhile isDigit, isDigit b = true :=
      fun b hb => List.mem_takeWhile_imp hb
    generalize (s.take 3).takeWhile isDigit = digits at hne hstart hdigits hdot
    obtain ⟨behind, rfl⟩ := hstart
    rw [List.drop_left] at hdot
    cases behind with
    | nil => cases hdot
    | cons b behind =>
      rw [scanDot] at hdot
      split at hdot
      next hb =>
        subst hb
        exact ⟨digits, behind, rfl, hne, hdigits⟩
      next => cases hdot

/-- A dotted mask is no number. -/
theorem maskNumber_dotted {a : ℕ} (h : torInetAton mask = some a) : maskNumber mask = none := by
  obtain ⟨digits, rest, rfl, hne, hdigits⟩ := torInetAton_start h
  obtain ⟨b, digits, rfl⟩ := List.exists_cons_of_ne_nil hne
  obtain ⟨hspace, hminus, hplus⟩ := isDigit_plain (hdigits b List.mem_cons_self)
  have hread : readDecimal (b :: digits ++ byte '.' :: rest)
      = some (decimalValue (b :: digits), byte '.' :: rest) := by
    rw [readDecimal, List.takeWhile_append_of_pos hdigits, List.dropWhile_append_of_pos hdigits,
      List.takeWhile_cons_of_neg (by decide), List.dropWhile_cons_of_neg (by decide),
      List.append_nil, if_neg hne]
  unfold maskNumber strtol
  rw [List.cons_append] at hread ⊢
  rw [List.dropWhile_cons_of_neg (by simp [hspace])]
  dsimp only
  rw [if_neg hminus, if_neg hplus, hread]
  rfl

theorem addrMaskGetBits_spec (h : addrMaskGetBits m = some bits) : m = 2 ^ 32 - 2 ^ (32 - bits) := by
  unfold addrMaskGetBits at h
  split at h
  next hzero =>
    obtain rfl := Option.some.inj h
    exact hzero
  next =>
    split at h
    next hones =>
      obtain rfl := Option.some.inj h
      exact hones
    next =>
      have hfound := List.find?_some h
      exact of_decide_eq_true hfound

/-- **The value of a mask** is its number of bits, cut to 32 bits. -/
theorem maskValue_text (h : MaskText mask m) (hvalue : maskValue family mask = some v) :
    v = m % 2 ^ 32 := by
  rcases h with hnumber | ⟨hm, hdotted⟩
  · have hread : maskNumber mask
        = some (Int.bmod (max (-2 ^ 63) (min (m : ℤ) (2 ^ 63 - 1))) (2 ^ 32)) := by
      unfold maskNumber
      rw [hnumber]
      rfl
    unfold maskValue at hvalue
    rw [hread] at hvalue
    dsimp only at hvalue
    split at hvalue
    next => cases hvalue
    next hrange =>
      obtain rfl := Option.some.inj hvalue
      rw [Int.bmod_def] at hrange ⊢
      split at hrange <;> omega
  · unfold maskValue at hvalue
    rw [maskNumber_dotted hdotted] at hvalue
    dsimp only at hvalue
    rw [hdotted, Option.bind_some] at hvalue
    have hbits := addrMaskGetBits_spec hvalue
    have hle := addrMaskGetBits_le hvalue
    have hpow : 2 ^ (32 - v) = 2 ^ (32 - m) := by
      have h1 : 2 ^ (32 - v) ≤ 2 ^ 32 := Nat.pow_le_pow_right (by decide) (Nat.sub_le _ _)
      have h2 : 2 ^ (32 - m) ≤ 2 ^ 32 := Nat.pow_le_pow_right (by decide) (Nat.sub_le _ _)
      omega
    have hexp := Nat.pow_right_injective le_rfl hpow
    rw [Nat.mod_eq_of_lt (by omega)]
    omega

/-- The mask of a pattern that is accepted. -/
theorem parseAddrMask_given {flags : StarFlags} {s : Bytes} {port : Option Bytes}
    (h : parseAddrMask flags s = some (addr, bits, port)) (hm : WrittenMask s m) :
    addr.InBits ∧ (addr.family = .inet → m % 2 ^ 32 ≤ 32) ∧ m % 2 ^ 32 ≤ 128
      ∧ fitMask addr (m % 2 ^ 32) = some bits := by
  obtain ⟨parts, mask, hparts, hmask, htext⟩ := hm
  unfold parseAddrMask at h
  split at h
  next => cases h
  next =>
    rw [hparts] at h
    dsimp only at h
    split at h
    next => cases h
    next addr' anyFlag haddr =>
      obtain ⟨bits', hbits, heq⟩ := Option.map_eq_some_iff.mp h
      obtain ⟨rfl, hrest⟩ := Prod.mk.inj heq
      obtain ⟨rfl, -⟩ := Prod.mk.inj hrest
      rw [hmask, maskBits, givenMask] at hbits
      split at hbits
      next => cases hbits
      next =>
        obtain ⟨v, hvalue, hfit⟩ := Option.bind_eq_some_iff.mp hbits
        obtain ⟨h32, h128⟩ := maskValue_le hvalue
        rw [maskValue_text htext hvalue] at h32 h128 hfit
        exact ⟨parseAddress_inBits haddr, h32, h128, hfit⟩

/-- **A written mask means what it says** unless it stands for a whole mapped address, or is cut to
another number. -/
theorem matchesFirst_written_iff {flags : StarFlags} {s : Bytes} {port : Option Bytes}
    (h : parseAddrMask flags s = some (addr, bits, port)) (hm : WrittenMask s m) :
    MatchesFirst addr bits (meantBits addr m) ↔ MaskKept addr m := by
  obtain ⟨hin, h32, h128, hfit⟩ := parseAddrMask_given h hm
  rw [matchesFirst_iff hin]
  cases addr with
  | unspec => simp [TorAddr.width, MaskKept]
  | inet a =>
    have hle := h32 rfl
    obtain rfl := Option.some.inj hfit
    show min (m % 2 ^ 32) 32 = min m 32 ↔ m ≤ 32 ∨ m % 2 ^ 32 = 32
    omega
  | inet6 words =>
    rw [fitMask] at hfit
    unfold meantBits MaskKept
    by_cases hmapped : isV4Mapped words = true
    · rw [if_pos hmapped] at hfit
      split at hfit
      next => cases hfit
      next hgap =>
        obtain rfl := Option.some.inj hfit
        simp only [hmapped, true_and, if_true]
        show min (96 + m % 2 ^ 32 % 32) 128 = min (if m ≤ 32 then 96 + m else m) 128 ↔ _
        split <;> omega
    · rw [if_neg hmapped] at hfit
      obtain rfl := Option.some.inj hfit
      simp only [hmapped, Bool.false_eq_true, false_and, if_false]
      show min (m % 2 ^ 32) 128 = min m 128 ↔ _
      omega

end Written

end Dittor.Tor

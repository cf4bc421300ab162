import Mathlib
import Dittor.Tor.MaskBits

/-!
# Addresses in text (`inaddr.c`, `address.c`)

`tor_inet_ntop` prints an address of IPv6 in words, with `::` for the longest run of zero words, or
with its last two words as an address of IPv4. `tor_inet_pton` reads both back
(`torInetPton6_ntop`), and so does `tor_inet_aton` an address of IPv4 (`torInetAton_ntoa`), which is
no text of an address of IPv6 (`torInetPton6_ntoa`).
-/

namespace Dittor.Tor

open Dittor.Lib

/-! ## Printing -/

/-- `%x` -/
def hexText (n : ℕ) : Bytes := (Nat.toDigits 16 n).map fun c => UInt8.ofNat c.toNat

/-- `tor_inet_ntoa` -/
def torInetNtoa (a : ℕ) : Bytes :=
  decimal (a / 2 ^ 24 % 256) ++ byte '.' :: (decimal (a / 2 ^ 16 % 256) ++ byte '.' ::
    (decimal (a / 2 ^ 8 % 256) ++ byte '.' :: decimal (a % 256)))

/-- The search for the longest gap from the word `i` on: where it begins, and its length. -/
def longestGap (i : ℕ) (words : List ℕ) (longest : ℕ × ℕ) : ℕ × ℕ :=
  match words with
  | [] => longest
  | w :: rest =>
    if w = 0 then
      let curGapLen := 1 + (rest.takeWhile fun w => w = 0).length
      longestGap (i + curGapLen) (rest.dropWhile fun w => w = 0)
        (if longest.2 < curGapLen then (i, curGapLen) else longest)
    else longestGap (i + 1) rest longest
termination_by words.length
decreasing_by
  · exact Nat.lt_succ_of_le (List.dropWhile_suffix _).length_le
  · exact Nat.lt_succ_self _

/-- `longestGapPos`; a single zero is no gap. -/
def longestGapPos (words : List ℕ) : Option ℕ :=
  let longest := longestGap 0 words (0, 0)
  if longest.2 ≤ 1 then none else some longest.1

/-- The loop that prints the words from `i` on; within the gap the zeros are skipped. -/
def ntopWords (gapPos : Option ℕ) : ℕ → Bool → List ℕ → Bytes
  | _, _, [] => []
  | i, inGap, w :: words =>
    if w = 0 ∧ inGap = true then ntopWords gapPos (i + 1) true words
    else if w = 0 ∧ gapPos = some i then
      (if i = 0 then [byte ':'] else []) ++ byte ':' :: ntopWords gapPos (i + 1) true words
    else
      hexText w ++ (if i ≠ 7 then [byte ':'] else []) ++ ntopWords gapPos (i + 1) false words

/-- `tor_inet_ntop` for `AF_INET6` -/
def torInetNtop6 (words : List ℕ) : Bytes :=
  match words with
  | [0, 0, 0, 0, 0, w5, w6, w7] =>
    if w5 = 0 ∧ w6 ≠ 0 ∧ w7 ≠ 0 then cstring "::" ++ torInetNtoa (w6 * 65536 + w7)
    else if w5 = 65535 then
      cstring "::" ++ hexText w5 ++ byte ':' :: torInetNtoa (w6 * 65536 + w7)
    else ntopWords (longestGapPos words) 0 false words
  | words => ntopWords (longestGapPos words) 0 false words

/-- `tor_addr_to_str` with brackets -/
def torAddrToStr : TorAddr → Option Bytes
  | .unspec => none
  | .inet a => some (torInetNtoa a)
  | .inet6 words => some (byte '[' :: torInetNtop6 words ++ [byte ']'])

/-! ## Hexadecimal words -/

section Hex

variable {n : ℕ} {rest : Bytes}

theorem hexDecodeDigit_digitChar : ∀ d < 16,
    hexDecodeDigit (UInt8.ofNat (Nat.digitChar d).toNat) = some d := by
  decide

theorem hexText_of_lt (h : n < 16) : hexText n = [UInt8.ofNat (Nat.digitChar n).toNat] := by
  rw [hexText, Nat.toDigits_of_lt_base h]
  rfl

theorem hexText_of_le (h : 16 ≤ n) :
    hexText n = hexText (n / 16) ++ [UInt8.ofNat (Nat.digitChar (n % 16)).toNat] := by
  rw [hexText, Nat.toDigits_of_base_le (by decide) h, List.map_append]
  rfl

/-- A printed word is read back. -/
theorem hexText_spec : (∀ b ∈ hexText n, isXDigit b = true) ∧ hexValue (hexText n) = n := by
  induction n using Nat.strong_induction_on with
  | _ n ih =>
    rcases lt_or_ge n 16 with hlt | hge
    · rw [hexText_of_lt hlt]
      have hdigit := hexDecodeDigit_digitChar n hlt
      refine ⟨fun b hb => ?_, ?_⟩
      · rw [List.mem_singleton.mp hb, isXDigit, hdigit]
        rfl
      · rw [hexValue, List.foldl_cons, List.foldl_nil, hdigit]
        simp
    · obtain ⟨hall, hvalue⟩ := ih (n / 16) (by omega)
      have hdigit := hexDecodeDigit_digitChar (n % 16) (Nat.mod_lt _ (by decide))
      rw [hexText_of_le hge]
      refine ⟨fun b hb => ?_, ?_⟩
      · rcases List.mem_append.mp hb with hb | hb
        · exact hall b hb
        · rw [List.mem_singleton.mp hb, isXDigit, hdigit]
          rfl
      · unfold hexValue at hvalue ⊢
        rw [List.foldl_append, hvalue, List.foldl_cons, List.foldl_nil, hdigit, Option.getD_some]
        omega

theorem hexText_ne_nil : hexText n ≠ [] := by
  rw [hexText, Ne, List.map_eq_nil_iff]
  exact Nat.toDigits_ne_nil

theorem length_hexText_le (h : n < 2 ^ 16) : (hexText n).length ≤ 4 := by
  rw [hexText, List.length_map]
  exact (Nat.length_toDigits_le_iff (by decide) (by decide)).mpr h

end Hex

/-! ## Addresses of IPv4 -/

section Quad

variable {a n : ℕ} {rest : Bytes}

/-- A printed octet is read back. -/
theorem scanOctet_decimal (hn : n ≤ 255) (h : ∀ b ∈ rest.head?, isDigit b = false) :
    scanOctet (decimal n ++ rest) = some (decimal n, rest) := by
  have hlen : (decimal n).length ≤ 3 := length_decimal_le (by omega) (by decide)
  have hall : ∀ b ∈ decimal n, isDigit b = true := fun b hb => isDigit_of_mem_decimal hb
  have hstop : (rest.take (3 - (decimal n).length)).takeWhile isDigit = [] := by
    cases rest with
    | nil => simp
    | cons b rest =>
      cases 3 - (decimal n).length with
      | zero => rfl
      | succ k =>
        rw [List.take_succ_cons, List.takeWhile_cons_of_neg (by simp [h b rfl])]
  have hdigits : ((decimal n ++ rest).take 3).takeWhile isDigit = decimal n := by
    rw [List.take_append, List.take_of_length_le hlen, List.takeWhile_append_of_pos hall, hstop,
      List.append_nil]
  unfold scanOctet
  dsimp only
  rw [hdigits, if_neg (decimal_ne_nil n), List.drop_left]

/-- The four octets of an address. -/
def quadOctets (a : ℕ) : List ℕ := [a / 2 ^ 24 % 256, a / 2 ^ 16 % 256, a / 2 ^ 8 % 256, a % 256]

theorem scanQuad_ntoa : scanQuad (torInetNtoa a) = some ((quadOctets a).map decimal) := by
  have hdot : ∀ rest : Bytes, ∀ b ∈ (byte '.' :: rest).head?, isDigit b = false := by
    intro rest b hb
    rw [← Option.some.inj hb]
    decide
  have hle : ∀ n, n % 256 ≤ 255 := fun n => by omega
  have hoctet : ∀ n rest, scanOctet (decimal (n % 256) ++ byte '.' :: rest)
      = some (decimal (n % 256), byte '.' :: rest) :=
    fun n rest => scanOctet_decimal (hle n) (hdot rest)
  have hlast : ∀ n, scanOctet (decimal (n % 256)) = some (decimal (n % 256), []) := by
    intro n
    have h : scanOctet (decimal (n % 256) ++ []) = _ := scanOctet_decimal (hle n) (by simp)
    rwa [List.append_nil] at h
  have hskip : ∀ s, (scanDot (byte '.' :: s)).bind scanOctet = scanOctet s := by
    intro s
    rw [scanDot, if_pos rfl, Option.bind_some]
  unfold scanQuad torInetNtoa
  simp only [hoctet, hskip, hlast, Option.bind_eq_bind, Option.bind_some, if_true]
  rfl

theorem quadValue_ntoa (ha : a < 2 ^ 32) : (scanQuad (torInetNtoa a)).bind quadValue = some a := by
  rw [scanQuad_ntoa, Option.bind_some]
  unfold quadValue quadOctets
  have hle : ∀ o ∈ [a / 2 ^ 24 % 256, a / 2 ^ 16 % 256, a / 2 ^ 8 % 256, a % 256].map decimal,
      decimalValue o ≤ 255 := by
    intro o ho
    obtain ⟨n, hn, rfl⟩ := List.mem_map.mp ho
    rw [decimalValue_decimal]
    simp only [List.mem_cons, List.not_mem_nil, or_false] at hn
    omega
  rw [if_pos hle]
  simp only [List.map_cons, List.map_nil, List.foldl_cons, List.foldl_nil, decimalValue_decimal]
  congr 1
  omega

/-- No octet is printed with a zero in front. -/
theorem octet_plain (hn : n ≤ 255) :
    ¬ (1 < (decimal n).length ∧ (decimal n).head? = some (byte '0')) := by
  have hall : ∀ n : Fin 256,
      ¬ (1 < (decimal n.val).length ∧ (decimal n.val).head? = some (byte '0')) := by decide +kernel
  exact hall ⟨n, by omega⟩

/-- **A printed address of IPv4 is read back.** -/
theorem torInetAton_ntoa (ha : a < 2 ^ 32) : torInetAton (torInetNtoa a) = some a := by
  have hvalue := quadValue_ntoa ha
  unfold torInetAton
  rw [scanQuad_ntoa] at hvalue ⊢
  show (if _ then none else _) = _
  rw [if_neg]
  · exact hvalue
  · rintro ⟨o, ho, hzero⟩
    obtain ⟨n, hn, rfl⟩ := List.mem_map.mp ho
    unfold quadOctets at hn
    simp only [List.mem_cons, List.not_mem_nil, or_false] at hn
    exact octet_plain (by omega) hzero

/-- The bytes of a printed address. -/
theorem mem_ntoa {b : UInt8} (h : b ∈ torInetNtoa a) : isDigit b = true ∨ b = byte '.' := by
  unfold torInetNtoa at h
  simp only [List.mem_append, List.mem_cons] at h
  rcases h with h | h | h | h | h | h | h
  all_goals first
    | exact .inl (isDigit_of_mem_decimal h)
    | exact .inr h

variable (rest) in
theorem dropWhile_dot {front : Bytes} (hfront : byte '.' ∉ front) :
    (front ++ byte '.' :: rest).dropWhile (fun b => b ≠ byte '.') = byte '.' :: rest
      ∧ (front ++ byte '.' :: rest).takeWhile (fun b => b ≠ byte '.') = front := by
  have hall : ∀ b ∈ front, decide (b ≠ byte '.') = true := by
    intro b hb
    exact decide_eq_true fun heq => hfront (heq ▸ hb)
  rw [List.dropWhile_append_of_pos hall, List.takeWhile_append_of_pos hall,
    List.dropWhile_cons_of_neg (by simp), List.takeWhile_cons_of_neg (by simp), List.append_nil]
  exact ⟨rfl, rfl⟩

theorem dot_notMem_decimal : byte '.' ∉ decimal n := fun h =>
  absurd (isDigit_of_mem_decimal h) (by decide)

/-- The dotted end of an address of IPv6. -/
theorem splitQuad_ntoa {front : Bytes} (hfront : byte '.' ∉ front) :
    splitQuad (front ++ byte ':' :: torInetNtoa a)
      = some (front ++ [byte ':'], some (torInetNtoa a)) := by
  generalize hx : a / 2 ^ 24 % 256 = x
  obtain ⟨tail, hquad⟩ : ∃ tail, torInetNtoa a = decimal x ++ byte '.' :: tail := by
    rw [torInetNtoa, hx]
    exact ⟨_, rfl⟩
  have hclean : byte '.' ∉ front ++ byte ':' :: decimal x := by
    rw [List.mem_append, List.mem_cons]
    rintro (h | h | h)
    · exact hfront h
    · exact absurd h (by decide)
    · exact dot_notMem_decimal h
  have htext : front ++ byte ':' :: torInetNtoa a
      = (front ++ byte ':' :: decimal x) ++ byte '.' :: tail := by
    rw [hquad]
    simp
  have hdigits : ∀ b ∈ (decimal x).reverse, isDigit b = true :=
    fun b hb => isDigit_of_mem_decimal (List.mem_reverse.mp hb)
  obtain ⟨hdrop, htake⟩ := dropWhile_dot tail hclean
  have hrev : (front ++ byte ':' :: decimal x).reverse
      = (decimal x).reverse ++ byte ':' :: front.reverse := by simp
  have hend : ((front ++ byte ':' :: decimal x).reverse.takeWhile isDigit).reverse = decimal x := by
    rw [hrev, List.takeWhile_append_of_pos hdigits, List.takeWhile_cons_of_neg (by decide),
      List.append_nil, List.reverse_reverse]
  have hbefore : (front ++ byte ':' :: decimal x).reverse.dropWhile isDigit
      = byte ':' :: front.reverse := by
    rw [hrev, List.dropWhile_append_of_pos hdigits, List.dropWhile_cons_of_neg (by decide)]
  have hfrontLen : (front ++ byte ':' :: decimal x).take
      ((front ++ byte ':' :: decimal x).length - (decimal x).length) = front ++ [byte ':'] := by
    rw [show front ++ byte ':' :: decimal x = (front ++ [byte ':']) ++ decimal x by simp,
      List.length_append, Nat.add_sub_cancel, List.take_left]
  unfold splitQuad
  rw [htext, hdrop]
  dsimp only
  rw [htake, hbefore, hend]
  dsimp only
  rw [if_neg (by simp), hfrontLen, hquad]

/-- **An address of IPv4 is none of IPv6.** -/
theorem torInetPton6_ntoa : torInetPton6 (torInetNtoa a) = none := by
  unfold torInetPton6
  split
  next => rfl
  next =>
    generalize hx : a / 2 ^ 24 % 256 = x
    obtain ⟨tail, hquad⟩ : ∃ tail, torInetNtoa a = decimal x ++ byte '.' :: tail := by
      rw [torInetNtoa, hx]
      exact ⟨_, rfl⟩
    obtain ⟨hdrop, htake⟩ := dropWhile_dot tail (dot_notMem_decimal (n := x))
    have hdigits : (decimal x).reverse.dropWhile isDigit = [] :=
      List.dropWhile_eq_nil_iff.mpr fun b hb => isDigit_of_mem_decimal (List.mem_reverse.mp hb)
    have hsplit : splitQuad (torInetNtoa a) = none := by
      unfold splitQuad
      rw [hquad, hdrop]
      dsimp only
      rw [htake, hdigits]
    rw [hsplit]
    rfl

end Quad

/-! ## Addresses of IPv6 -/

/-- Words with a colon between them. -/
def colonText (words : List ℕ) : Bytes := [byte ':'].intercalate (words.map hexText)

/-- Words with a colon behind each. -/
def colonFront (words : List ℕ) : Bytes := words.flatMap fun w => hexText w ++ [byte ':']

section Printed

variable {words front back : List ℕ} {gapPos : Option ℕ} {i g k w : ℕ}

theorem colonText_cons (hne : words ≠ []) :
    colonText (w :: words) = hexText w ++ byte ':' :: colonText words := by
  obtain ⟨v, words, rfl⟩ := List.exists_cons_of_ne_nil hne
  rw [colonText, List.map_cons, List.map_cons, List.intercalate_cons_cons, ← List.map_cons]
  simp [colonText]

/-- Without a gap ahead the words are joined. -/
theorem ntopWords_behind (hgap : ∀ g ∈ gapPos, g < i) (hlen : i + words.length = 8) :
    ntopWords gapPos i false words = colonText words := by
  induction words generalizing i with
  | nil => rfl
  | cons w words ih =>
    have hno : ¬ (w = 0 ∧ gapPos = some i) := fun h => absurd (hgap i h.2) (lt_irrefl i)
    rw [List.length_cons] at hlen
    rw [ntopWords, if_neg (by simp), if_neg hno,
      ih (fun g hg => (hgap g hg).trans (Nat.lt_succ_self i)) (by omega)]
    cases words with
    | nil =>
      have hlast : i = 7 := by simpa using hlen
      rw [if_neg (not_not.mpr hlast)]
      simp [colonText]
    | cons v words =>
      rw [List.length_cons] at hlen
      rw [if_pos (by omega), colonText_cons (List.cons_ne_nil v words)]
      simp

/-- In the gap the zeros are skipped. -/
theorem ntopWords_zeros :
    ntopWords gapPos i true (List.replicate k 0 ++ back) = ntopWords gapPos (i + k) true back := by
  induction k generalizing i with
  | zero => rfl
  | succ k ih =>
    rw [List.replicate_succ, List.cons_append, ntopWords, if_pos ⟨rfl, rfl⟩, ih,
      Nat.add_right_comm, Nat.add_assoc]

/-- Another word ends the gap. -/
theorem ntopWords_leave (hback : ∀ w ∈ back.head?, w ≠ 0) :
    ntopWords gapPos i true back = ntopWords gapPos i false back := by
  cases back with
  | nil => rfl
  | cons w back =>
    have hw := hback w rfl
    simp [ntopWords, hw]

/-- In front of the gap each word has a colon. -/
theorem ntopWords_front (hlen : i + front.length ≤ g) (hg : g ≤ 7) :
    ntopWords (some g) i false (front ++ back)
      = colonFront front ++ ntopWords (some g) (i + front.length) false back := by
  induction front generalizing i with
  | nil => rfl
  | cons w front ih =>
    rw [List.length_cons] at hlen
    have hno : ¬ (w = 0 ∧ some g = some i) := by
      rintro ⟨-, heq⟩
      have := Option.some.inj heq
      omega
    rw [List.cons_append, ntopWords, if_neg (by simp), if_neg hno, if_pos (by omega),
      ih (by omega), List.length_cons, show i + (front.length + 1) = i + 1 + front.length by omega]
    simp [colonFront]

/-- The text of words with a gap. -/
theorem ntopWords_gap (hback : ∀ w ∈ back.head?, w ≠ 0)
    (hlen : front.length + (k + 1) + back.length = 8) :
    ntopWords (some front.length) 0 false (front ++ (List.replicate (k + 1) 0 ++ back))
      = colonFront front ++ ((if front = [] then [byte ':'] else []) ++ byte ':' :: colonText back) := by
  have hgap : ∀ g ∈ some front.length, g < front.length + 1 + k := by
    intro g hg
    rw [← Option.some.inj hg]
    omega
  have hbehind : ntopWords (some front.length) (front.length + 1 + k) false back = colonText back :=
    ntopWords_behind hgap (by omega)
  rw [ntopWords_front (by omega) (by omega), Nat.zero_add, List.replicate_succ, List.cons_append,
    ntopWords, if_neg (by simp), if_pos ⟨rfl, rfl⟩, ntopWords_zeros, ntopWords_leave hback, hbehind]
  simp only [List.length_eq_zero_iff]

/-- The search finds zeros. -/
theorem longestGap_spec {longest : ℕ × ℕ} :
    longestGap i words longest = longest
      ∨ ∃ j, (longestGap i words longest).1 = i + j ∧ words[j]? = some 0 := by
  induction hn : words.length using Nat.strong_induction_on generalizing i words longest with
  | _ n ih =>
    cases words with
    | nil => exact .inl (by rw [longestGap])
    | cons w words =>
      subst hn
      rw [longestGap]
      split
      next hzero =>
        subst hzero
        dsimp only
        have hsplit := List.takeWhile_append_dropWhile (p := fun w => decide (w = 0)) (l := words)
        generalize words.takeWhile (fun w => decide (w = 0)) = zeros at hsplit ⊢
        generalize words.dropWhile (fun w => decide (w = 0)) = rest at hsplit ⊢
        subst hsplit
        rcases ih rest.length (by simp) rfl with hsame | ⟨j, hj, hget⟩
        · rw [hsame]
          split
          · exact .inr ⟨0, rfl, rfl⟩
          · exact .inl rfl
        · refine .inr ⟨1 + zeros.length + j, by rw [hj]; omega, ?_⟩
          rw [show 1 + zeros.length + j = (zeros.length + j) + 1 by omega, List.getElem?_cons_succ,
            List.getElem?_append_right (by omega), Nat.add_sub_cancel_left]
          exact hget
      next =>
        rcases ih words.length (Nat.lt_succ_self _) rfl with hsame | ⟨j, hj, hget⟩
        · exact .inl hsame
        · exact .inr ⟨j + 1, by rw [hj]; omega, hget⟩

/-- The gap that is left out begins with a zero. -/
theorem longestGapPos_spec (h : longestGapPos words = some g) : words[g]? = some 0 := by
  unfold longestGapPos at h
  dsimp only at h
  split at h
  next => cases h
  next hlong =>
    obtain rfl := Option.some.inj h
    have hspec : longestGap 0 words (0, 0) = (0, 0)
        ∨ ∃ j, (longestGap 0 words (0, 0)).1 = 0 + j ∧ words[j]? = some 0 := longestGap_spec
    rcases hspec with hsame | ⟨j, hj, hget⟩
    · rw [hsame] at hlong
      exact absurd (by decide) hlong
    · rw [hj, Nat.zero_add]
      exact hget

/-- The words in front of a gap, its zeros and the words behind it. -/
theorem exists_gap (h : words[g]? = some 0) :
    ∃ front k back, words = front ++ (List.replicate (k + 1) 0 ++ back) ∧ front.length = g
      ∧ ∀ w ∈ back.head?, w ≠ 0 := by
  obtain ⟨hg, hzero⟩ := List.getElem?_eq_some_iff.mp h
  have hdrop : words.drop g = 0 :: words.drop (g + 1) := by
    rw [List.drop_eq_getElem_cons hg, hzero]
  have hzeros : (words.drop (g + 1)).takeWhile (fun w => w = 0)
      = List.replicate ((words.drop (g + 1)).takeWhile fun w => w = 0).length 0 :=
    List.eq_replicate_of_mem fun w hw => by simpa using List.mem_takeWhile_imp hw
  refine ⟨words.take g, ((words.drop (g + 1)).takeWhile fun w => w = 0).length,
    (words.drop (g + 1)).dropWhile fun w => w = 0, ?_, by rw [List.length_take]; omega, ?_⟩
  · rw [List.replicate_succ, List.cons_append, ← hzeros, List.takeWhile_append_dropWhile, ← hdrop,
      List.take_append_drop]
  · intro w hw hwzero
    have hnot := List.head?_dropWhile_not (fun w => decide (w = 0)) (words.drop (g + 1))
    rw [Option.mem_def.mp hw] at hnot
    simp [hwzero] at hnot

end Printed

section Read

variable {words front back : List ℕ} {gapPos : Option ℕ} {n w a : ℕ} {rest src tail : Bytes}

/-- The digits in front of a colon, or of the end. -/
theorem hexText_cut (h : ∀ b ∈ rest.head?, b = byte ':') :
    (hexText w ++ rest).takeWhile isXDigit = hexText w
      ∧ (hexText w ++ rest).dropWhile isXDigit = rest := by
  have hall := (hexText_spec (n := w)).1
  rw [List.takeWhile_append_of_pos hall, List.dropWhile_append_of_pos hall]
  cases rest with
  | nil => simp
  | cons b rest =>
    have hb : isXDigit b = false := by
      rw [h b rfl]
      decide
    rw [List.takeWhile_cons_of_neg (by simp [hb]), List.dropWhile_cons_of_neg (by simp [hb]),
      List.append_nil]
    exact ⟨rfl, rfl⟩

/-- One round of the loop reads a word, and the colon behind it. -/
theorem inetWords_hexText (hw : w < 2 ^ 16) (hlen : words.length ≤ 7)
    (h : ∀ b ∈ rest.head?, b = byte ':') :
    inetWords (n + 1) (hexText w ++ rest) words gapPos
      = if rest = [] then some (words ++ [w], gapPos)
        else inetWords n rest.tail (words ++ [w]) gapPos := by
  obtain ⟨hall, hvalue⟩ := hexText_spec (n := w)
  have hfour := length_hexText_le hw
  obtain ⟨htake, hdrop⟩ := hexText_cut (w := w) h
  obtain ⟨b, digits, hdigits⟩ := List.exists_cons_of_ne_nil (hexText_ne_nil (n := w))
  have hb : isXDigit b = true := hall b (by rw [hdigits]; exact List.mem_cons_self)
  rw [hdigits] at htake hdrop hfour hvalue ⊢
  rw [List.cons_append] at htake hdrop ⊢
  rw [inetWords, if_neg (by omega), if_pos hb]
  dsimp only
  rw [htake, hdrop, if_neg (by omega), hvalue]
  cases rest with
  | nil => rfl
  | cons c rest =>
    dsimp only
    rw [if_pos (h c rfl), if_neg (List.cons_ne_nil c rest)]
    rfl

theorem inetWords_word (hw : w < 2 ^ 16) (hlen : words.length ≤ 7) :
    inetWords (n + 1) (hexText w ++ byte ':' :: rest) words gapPos
      = inetWords n rest (words ++ [w]) gapPos := by
  have hcolon : ∀ b ∈ (byte ':' :: rest).head?, b = byte ':' := fun b hb => (Option.some.inj hb).symm
  rw [inetWords_hexText hw hlen hcolon, if_neg (List.cons_ne_nil _ rest)]
  rfl

/-- Joined words are read back. -/
theorem inetWords_colonText (hback : ∀ w ∈ back, w < 2 ^ 16) (hn : back.length ≤ n)
    (hlen : words.length + back.length ≤ 8) :
    inetWords n (colonText back) words gapPos = some (words ++ back, gapPos) := by
  induction back generalizing n words with
  | nil => cases n <;> simp [colonText, inetWords]
  | cons w back ih =>
    have hw := hback w List.mem_cons_self
    rw [List.length_cons] at hn hlen
    obtain ⟨n, rfl⟩ := Nat.exists_eq_add_of_le' (show 1 ≤ n by omega)
    cases back with
    | nil =>
      rw [show colonText [w] = hexText w ++ [] by simp [colonText],
        inetWords_hexText hw (by omega) (by simp), if_pos rfl]
    | cons v back =>
      rw [colonText_cons (List.cons_ne_nil v back), inetWords_word hw (by omega),
        ih (fun x hx => hback x (List.mem_cons_of_mem w hx)) (by omega)
          (by rw [List.length_append, List.length_singleton]; omega)]
      simp

/-- So are words with a colon behind each, whatever follows. -/
theorem inetWords_colonFront (hfront : ∀ w ∈ front, w < 2 ^ 16)
    (hlen : words.length + front.length ≤ 8) :
    inetWords (n + front.length) (colonFront front ++ rest) words gapPos
      = inetWords n rest (words ++ front) gapPos := by
  induction front generalizing words with
  | nil => simp [colonFront]
  | cons w front ih =>
    have hw := hfront w List.mem_cons_self
    rw [List.length_cons] at hlen
    have htext : colonFront (w :: front) ++ rest
        = hexText w ++ byte ':' :: (colonFront front ++ rest) := by simp [colonFront]
    rw [htext, List.length_cons, ← Nat.add_assoc, inetWords_word hw (by omega),
      ih (fun x hx => hfront x (List.mem_cons_of_mem w hx))
        (by rw [List.length_append, List.length_singleton]; omega)]
    simp

/-- The gap, at the start or behind a word. -/
theorem inetWords_gap (hback : ∀ w ∈ back, w < 2 ^ 16) (hn : back.length ≤ n)
    (hlen : words.length + back.length ≤ 7) :
    inetWords (n + 1) ((if words = [] then [byte ':'] else []) ++ byte ':' :: colonText back) words
        none = some (words ++ back, some words.length) := by
  have hcolon : isXDigit (byte ':') = false := by decide
  have hread : inetWords n (colonText back) words (some words.length)
      = some (words ++ back, some words.length) := inetWords_colonText hback hn (by omega)
  cases words with
  | nil =>
    rw [if_pos rfl, List.singleton_append, inetWords, if_neg (by simp), if_neg (by simp [hcolon]),
      if_neg (by simp), if_pos (by simp)]
    exact hread
  | cons w words =>
    rw [if_neg (List.cons_ne_nil w words), List.nil_append, inetWords, if_neg (by omega),
      if_neg (by simp [hcolon]), if_pos (by simp)]
    exact hread

theorem splitQuad_none (h : byte '.' ∉ src) : splitQuad src = some (src, none) := by
  have hall : src.dropWhile (fun b => b ≠ byte '.') = [] :=
    List.dropWhile_eq_nil_iff.mpr fun b hb => decide_eq_true fun heq => h (heq ▸ hb)
  unfold splitQuad
  rw [hall]

/-- A text whose last byte is no colon, or whose last two bytes are colons. -/
def EndsPlain (src : Bytes) : Prop :=
  ¬ (2 < src.length ∧ src.getLast? = some (byte ':') ∧ src.dropLast.getLast? ≠ some (byte ':'))

theorem endsPlain_append {b : UInt8} (hb : b ≠ byte ':') : EndsPlain (src ++ [b]) := by
  rintro ⟨-, hlast, -⟩
  rw [List.getLast?_concat] at hlast
  exact hb (Option.some.inj hlast)

variable (src) in
theorem endsPlain_colons : EndsPlain (src ++ [byte ':', byte ':']) := by
  rintro ⟨-, -, hbefore⟩
  rw [show src ++ [byte ':', byte ':'] = (src ++ [byte ':']) ++ [byte ':'] by simp,
    List.dropLast_concat, List.getLast?_concat] at hbefore
  exact hbefore rfl

/-- Words without a gap. -/
theorem torInetPton6_full (hend : EndsPlain src) (hdot : byte '.' ∉ src)
    (hread : inetWords src.length src [] none = some (words, none)) (hlen : words.length = 8) :
    torInetPton6 src = some words := by
  unfold torInetPton6
  rw [if_neg hend, splitQuad_none hdot]
  show ((inetWords src.length src [] none).bind _) = _
  rw [hread]
  show (if words.length + 0 = 8 then some (words ++ []) else none) = _
  rw [Nat.add_zero, if_pos hlen, List.append_nil]

/-- Words with a gap. -/
theorem torInetPton6_gap (hend : EndsPlain src) (hdot : byte '.' ∉ src)
    (hread : inetWords src.length src [] none = some (front ++ back, some front.length))
    (hlen : front.length + (n + 1) + back.length = 8) :
    torInetPton6 src = some (front ++ (List.replicate (n + 1) 0 ++ back)) := by
  unfold torInetPton6
  rw [if_neg hend, splitQuad_none hdot]
  show ((inetWords src.length src [] none).bind _) = _
  rw [hread]
  show (if (front ++ back).length + 0 < 8 then some ((front ++ back).take front.length
    ++ List.replicate (8 - ((front ++ back).length + 0)) 0 ++ (front ++ back).drop front.length ++ [])
    else none) = _
  have hgap : 8 - ((front ++ back).length + 0) = n + 1 := by
    rw [List.length_append]
    omega
  rw [if_pos (by rw [List.length_append]; omega), hgap, List.take_left, List.drop_left,
    List.append_nil, List.append_assoc]

variable (src back n) in
/-- An address that ends in one of IPv4, behind a gap. -/
theorem torInetPton6_quad (ha : a < 2 ^ 32) (hdot : byte '.' ∉ src)
    (hread : inetWords (src ++ [byte ':']).length (src ++ [byte ':']) [] none = some (back, some 0))
    (hlen : n + back.length = 6) (hn : 0 < n) :
    torInetPton6 (src ++ byte ':' :: torInetNtoa a)
      = some (List.replicate n 0 ++ (back ++ [a / 65536, a % 65536])) := by
  have hend : EndsPlain (src ++ byte ':' :: torInetNtoa a) := by
    obtain ⟨b, digits, hdigits⟩ :=
      List.exists_cons_of_ne_nil (List.reverse_ne_nil_iff.mpr (decimal_ne_nil (a % 256)))
    have htext : decimal (a % 256) = digits.reverse ++ [b] := by
      have := congrArg List.reverse hdigits
      simpa using this
    have hb : isDigit b = true := isDigit_of_mem_decimal (n := a % 256) (by rw [htext]; simp)
    have hquad : ∃ text, src ++ byte ':' :: torInetNtoa a = text ++ [b] := by
      rw [torInetNtoa, htext]
      exact ⟨src ++ byte ':' :: (decimal (a / 2 ^ 24 % 256) ++ byte '.' ::
        (decimal (a / 2 ^ 16 % 256) ++ byte '.' ::
          (decimal (a / 2 ^ 8 % 256) ++ byte '.' :: digits.reverse))), by simp⟩
    obtain ⟨text, htext⟩ := hquad
    rw [htext]
    refine endsPlain_append fun hcolon => ?_
    rw [hcolon] at hb
    exact absurd hb (by decide)
  unfold torInetPton6
  rw [if_neg hend, splitQuad_ntoa hdot]
  show ((((scanQuad (torInetNtoa a)).bind quadValue).map fun v => [v / 65536, v % 65536]).bind _) = _
  rw [quadValue_ntoa ha]
  show ((inetWords (src ++ [byte ':']).length (src ++ [byte ':']) [] none).bind _) = _
  rw [hread]
  show (if back.length + 2 < 8 then some (back.take 0 ++ List.replicate (8 - (back.length + 2)) 0
    ++ back.drop 0 ++ [a / 65536, a % 65536]) else none) = _
  rw [if_pos (by omega), show 8 - (back.length + 2) = n by omega]
  simp

/-! ### The whole text -/

theorem mem_colonText {b : UInt8} (h : b ∈ colonText words) : isXDigit b = true ∨ b = byte ':' := by
  induction words with
  | nil => exact absurd h (by simp [colonText])
  | cons w words ih =>
    cases words with
    | nil => exact .inl ((hexText_spec (n := w)).1 b (by simpa [colonText] using h))
    | cons v words =>
      rw [colonText_cons (List.cons_ne_nil v words), List.mem_append, List.mem_cons] at h
      rcases h with h | h | h
      · exact .inl ((hexText_spec (n := w)).1 b h)
      · exact .inr h
      · exact ih h

theorem mem_colonFront {b : UInt8} (h : b ∈ colonFront front) : isXDigit b = true ∨ b = byte ':' := by
  obtain ⟨w, -, hb⟩ := List.mem_flatMap.mp h
  rcases List.mem_append.mp hb with hb | hb
  · exact .inl ((hexText_spec (n := w)).1 b hb)
  · exact .inr (List.mem_singleton.mp hb)

theorem dot_notXDigit {b : UInt8} (h : isXDigit b = true ∨ b = byte ':') : b ≠ byte '.' := by
  rintro rfl
  rcases h with h | h <;> exact absurd h (by decide)

/-- Joined words end with a digit. -/
theorem colonText_last (hne : words ≠ []) :
    ∃ text b, colonText words = text ++ [b] ∧ isXDigit b = true := by
  induction words with
  | nil => exact absurd rfl hne
  | cons w words ih =>
    cases words with
    | nil =>
      refine ⟨(hexText w).dropLast, (hexText w).getLast hexText_ne_nil, ?_,
        (hexText_spec (n := w)).1 _ (List.getLast_mem _)⟩
      rw [List.dropLast_append_getLast]
      simp [colonText]
    | cons v words =>
      obtain ⟨text, b, htext, hb⟩ := ih (List.cons_ne_nil v words)
      refine ⟨hexText w ++ byte ':' :: text, b, ?_, hb⟩
      rw [colonText_cons (List.cons_ne_nil v words), htext]
      simp

variable (src) in
theorem endsPlain_colonText (hne : words ≠ []) : EndsPlain (src ++ colonText words) := by
  obtain ⟨text, b, htext, hb⟩ := colonText_last hne
  rw [htext, ← List.append_assoc]
  refine endsPlain_append fun hcolon => ?_
  rw [hcolon] at hb
  exact absurd hb (by decide)

theorem length_colonText : words.length ≤ (colonText words).length := by
  induction words with
  | nil => exact Nat.zero_le _
  | cons w words ih =>
    have hpos : 0 < (hexText w).length := List.length_pos_of_ne_nil hexText_ne_nil
    cases words with
    | nil =>
      rw [colonText, List.map_singleton, List.intercalate_singleton]
      exact hpos
    | cons v words =>
      rw [colonText_cons (List.cons_ne_nil v words)]
      simp only [List.length_cons, List.length_append] at ih ⊢
      omega

theorem length_colonFront : front.length ≤ (colonFront front).length := by
  induction front with
  | nil => exact Nat.zero_le _
  | cons w front ih =>
    have htext : colonFront (w :: front) = hexText w ++ byte ':' :: colonFront front := by
      simp [colonFront]
    rw [htext]
    simp only [List.length_cons, List.length_append]
    omega

/-- The text with a gap ends with a digit or with two colons. -/
theorem endsPlain_gap : EndsPlain
    (colonFront front ++ ((if front = [] then [byte ':'] else []) ++ byte ':' :: colonText back)) := by
  by_cases hback : back = []
  · subst hback
    cases front using List.reverseRecOn with
    | nil => exact endsPlain_colons []
    | append_singleton front w =>
      have htext : colonFront (front ++ [w]) ++ ([] ++ byte ':' :: colonText [])
          = (colonFront front ++ hexText w) ++ [byte ':', byte ':'] := by
        simp [colonFront, colonText]
      rw [if_neg (by simp), htext]
      exact endsPlain_colons _
  · have htext : colonFront front
          ++ ((if front = [] then [byte ':'] else []) ++ byte ':' :: colonText back)
        = (colonFront front ++ ((if front = [] then [byte ':'] else []) ++ [byte ':']))
          ++ colonText back := by simp
    rw [htext]
    exact endsPlain_colonText _ hback

/-- **Printed words are read back.** -/
theorem torInetPton6_words (hwords : ∀ w ∈ words, w < 2 ^ 16) (hlen : words.length = 8) :
    torInetPton6 (ntopWords (longestGapPos words) 0 false words) = some words := by
  cases hgap : longestGapPos words with
  | none =>
    have htext : ntopWords none 0 false words = colonText words :=
      ntopWords_behind (fun g hg => nomatch hg) (by omega)
    have hne : words ≠ [] := List.ne_nil_of_length_pos (by omega)
    have hend : EndsPlain (colonText words) := endsPlain_colonText [] hne
    rw [htext]
    exact torInetPton6_full hend (fun h => dot_notXDigit (mem_colonText h) rfl)
      (inetWords_colonText hwords length_colonText (by simp [hlen])) hlen
  | some g =>
    obtain ⟨front, k, back, rfl, rfl, hback⟩ := exists_gap (longestGapPos_spec hgap)
    simp only [List.length_append, List.length_replicate] at hlen
    have hfront : ∀ w ∈ front, w < 2 ^ 16 := fun w hw => hwords w (by simp [hw])
    have hbehind : ∀ w ∈ back, w < 2 ^ 16 := fun w hw => hwords w (by simp [hw])
    rw [ntopWords_gap hback (by omega)]
    refine torInetPton6_gap endsPlain_gap (fun hdot => ?_) ?_ (by omega)
    · rw [List.mem_append, List.mem_append, List.mem_cons] at hdot
      rcases hdot with h | h | h | h
      · exact dot_notXDigit (mem_colonFront h) rfl
      · split at h
        · exact absurd (List.mem_singleton.mp h) (by decide)
        · exact absurd h List.not_mem_nil
      · exact absurd h (by decide)
      · exact dot_notXDigit (mem_colonText h) rfl
    · -- a round for each word in front, one for the gap and one for each word behind
      have hfrontLen := @length_colonFront front
      have hbackLen := @length_colonText back
      obtain ⟨n, hn, hfuel⟩ : ∃ n, back.length ≤ n ∧ (colonFront front
          ++ ((if front = [] then [byte ':'] else []) ++ byte ':' :: colonText back)).length
            = (n + 1) + front.length := by
        refine ⟨(colonFront front).length - front.length
          + (if front = [] then [byte ':'] else []).length + (colonText back).length, by omega, ?_⟩
        simp only [List.length_append, List.length_cons]
        omega
      rw [hfuel, inetWords_colonFront hfront (by simp; omega), List.nil_append]
      exact inetWords_gap hbehind hn (by omega)

/-- **A printed address of IPv6 is read back.** -/
theorem torInetPton6_ntop (h : (TorAddr.inet6 words).InBits) :
    torInetPton6 (torInetNtop6 words) = some words := by
  obtain ⟨hlen, hwords⟩ := h
  unfold torInetNtop6
  split
  next w5 w6 w7 =>
    have h5 := hwords w5 (by simp)
    have h6 := hwords w6 (by simp)
    have h7 := hwords w7 (by simp)
    have hquad : w6 * 65536 + w7 < 2 ^ 32 := by omega
    have hhigh : (w6 * 65536 + w7) / 65536 = w6 := by omega
    have hlow : (w6 * 65536 + w7) % 65536 = w7 := by omega
    split
    next hzero =>
      obtain ⟨rfl, -, -⟩ := hzero
      have hread := torInetPton6_quad [] 6 [byte ':'] hquad (by decide) (by decide) rfl (by decide)
      rw [hhigh, hlow] at hread
      exact hread
    next =>
      split
      next hmapped =>
        have hread := torInetPton6_quad [w5] 5 (cstring "::" ++ hexText w5) hquad
          (by subst hmapped; decide) (by subst hmapped; decide) rfl (by decide)
        rw [hhigh, hlow, List.append_assoc] at hread
        rw [List.append_assoc, hread]
        rfl
      next => exact torInetPton6_words hwords hlen
  next => exact torInetPton6_words hwords hlen

end Read

/-! ## What a printed address is made of -/

section Bytes

variable {a i : ℕ} {words : List ℕ} {gapPos : Option ℕ} {inGap : Bool}

theorem isXDigit_of_isDigit {b : UInt8} (h : isDigit b = true) : isXDigit b = true := by
  rw [isDigit, Bool.and_eq_true, decide_eq_true_iff, decide_eq_true_iff] at h
  have hdigit : (byte '0' ≤ b && b ≤ byte '9') = true := by
    rw [Bool.and_eq_true, decide_eq_true_iff, decide_eq_true_iff]
    exact h
  rw [isXDigit, hexDecodeDigit, if_pos hdigit]
  rfl

theorem mem_ntopWords {b : UInt8} (h : b ∈ ntopWords gapPos i inGap words) :
    isXDigit b = true ∨ b = byte ':' := by
  induction words generalizing i inGap with
  | nil => cases h
  | cons w words ih =>
    rw [ntopWords] at h
    split_ifs at h
    · exact ih h
    all_goals
      simp only [List.nil_append, List.append_nil, List.mem_append, List.mem_cons,
        List.not_mem_nil, or_false] at h
    · rcases h with h | h | h
      · exact .inr h
      · exact .inr h
      · exact ih h
    · rcases h with h | h
      · exact .inr h
      · exact ih h
    · rcases h with (h | h) | h
      · exact .inl (hexText_spec.1 b h)
      · exact .inr h
      · exact ih h
    · rcases h with h | h
      · exact .inl (hexText_spec.1 b h)
      · exact ih h

/-- The bytes of a printed address of IPv6. -/
theorem mem_ntop {b : UInt8} (h : b ∈ torInetNtop6 words) :
    isXDigit b = true ∨ b = byte ':' ∨ b = byte '.' := by
  have hquad : ∀ {a}, b ∈ torInetNtoa a → isXDigit b = true ∨ b = byte ':' ∨ b = byte '.' := by
    intro a hmem
    rcases mem_ntoa hmem with hdigit | hdot
    · exact .inl (isXDigit_of_isDigit hdigit)
    · exact .inr (.inr hdot)
  have hcolon : ∀ {b}, b ∈ cstring "::" → b = byte ':' := by
    intro b hmem
    rw [show cstring "::" = [byte ':', byte ':'] by decide] at hmem
    simpa using hmem
  have hwords : ∀ {ws}, b ∈ ntopWords (longestGapPos ws) 0 false ws →
      isXDigit b = true ∨ b = byte ':' ∨ b = byte '.' := fun hmem =>
    (mem_ntopWords hmem).imp_right .inl
  unfold torInetNtop6 at h
  split at h
  next =>
    split_ifs at h
    · rcases List.mem_append.mp h with h | h
      · exact .inr (.inl (hcolon h))
      · exact hquad h
    · rcases List.mem_append.mp h with h | h
      · rcases List.mem_append.mp h with h | h
        · exact .inr (.inl (hcolon h))
        · exact .inl (hexText_spec.1 b h)
      · rcases List.mem_cons.mp h with h | h
        · exact .inr (.inl h)
        · exact hquad h
    · exact hwords h
  next => exact hwords h

theorem length_ntoa : (torInetNtoa a).length ≤ 15 := by
  have hoctet : ∀ n, (decimal (n % 256)).length ≤ 3 := fun n =>
    length_decimal_le (by omega) (by decide)
  unfold torInetNtoa
  simp only [List.length_append, List.length_cons]
  have h0 := hoctet (a / 2 ^ 24)
  have h1 := hoctet (a / 2 ^ 16)
  have h2 := hoctet (a / 2 ^ 8)
  have h3 := hoctet a
  omega

theorem length_ntopWords (h : ∀ w ∈ words, w < 2 ^ 16) :
    (ntopWords gapPos i inGap words).length ≤ 5 * words.length := by
  induction words generalizing i inGap with
  | nil => exact le_refl _
  | cons w words ih =>
    have hrest : ∀ inGap, (ntopWords gapPos (i + 1) inGap words).length ≤ 5 * words.length :=
      fun inGap => ih fun v hv => h v (List.mem_cons_of_mem w hv)
    have hw := length_hexText_le (h w List.mem_cons_self)
    have htrue := hrest true
    have hfalse := hrest false
    rw [ntopWords]
    split_ifs
    all_goals
      simp only [List.nil_append, List.append_nil, List.length_append, List.length_cons,
        List.length_nil]
      omega

theorem length_ntop (h : (TorAddr.inet6 words).InBits) : (torInetNtop6 words).length ≤ 40 := by
  obtain ⟨hlen, hwords⟩ := h
  have hplain : (ntopWords (longestGapPos words) 0 false words).length ≤ 5 * words.length :=
    length_ntopWords hwords
  rw [hlen] at hplain
  unfold torInetNtop6
  split
  next w5 w6 w7 =>
    have hquad := length_ntoa (a := w6 * 65536 + w7)
    have hhex := length_hexText_le (hwords w5 (by simp))
    have hcolon : (cstring "::").length = 2 := by decide
    split_ifs
    · rw [List.length_append]
      omega
    · rw [List.length_append, List.length_append, List.length_cons]
      omega
    · exact hplain
  next => exact hplain

end Bytes

end Dittor.Tor

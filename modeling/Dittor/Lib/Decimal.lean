import Mathlib

/-!
# Decimal numerals in bytes

A number as C prints it with `%d`, `%i` or `%u`, and as `strtol` reads it: digits up to the
first byte that is none. What was printed is read back, whatever stands behind it
(`readDecimal_decimal`). A `long` is wide enough for the limits that `tor_parse_long` is
called with, so its overflow is not told from a number outside of them.
-/

namespace Dittor.Lib

/-- The digits of a number. -/
def decimal (n : ℕ) : List UInt8 := (Nat.toDigits 10 n).map fun c => UInt8.ofNat c.toNat

/-- `TOR_ISDIGIT` -/
def isDigit (b : UInt8) : Bool := 48 ≤ b.toNat && b.toNat ≤ 57

/-- The number that a run of digits stands for. -/
def decimalValue (digits : List UInt8) : ℕ :=
  digits.foldl (fun n b => 10 * n + (b.toNat - 48)) 0

/-- The number in front and what follows it. -/
def readDecimal (s : List UInt8) : Option (ℕ × List UInt8) :=
  if s.takeWhile isDigit = [] then none
  else some (decimalValue (s.takeWhile isDigit), s.dropWhile isDigit)

/-- `isspace` -/
def isSpace (b : UInt8) : Bool := b.toNat = 32 || (9 ≤ b.toNat && b.toNat ≤ 13)

/-- `strtol` in base ten: the number and what follows it. -/
def strtol (s : List UInt8) : Option (ℤ × List UInt8) :=
  match s.dropWhile isSpace with
  | [] => none
  | b :: rest =>
    if b.toNat = 45 then (readDecimal rest).map fun r => (-(r.1 : ℤ), r.2)
    else if b.toNat = 43 then (readDecimal rest).map fun r => ((r.1 : ℤ), r.2)
    else (readDecimal (b :: rest)).map fun r => ((r.1 : ℤ), r.2)

/-- `tor_parse_long` in base ten without `next`: the whole text, in the limits. -/
def torParseLong (min max : ℤ) (s : List UInt8) : Option ℤ :=
  match strtol s with
  | some (r, []) => if r < min ∨ max < r then none else some r
  | _ => none

/-- `tor_parse_ulong` and `tor_parse_uint64` in base ten without `next`: a minus sign is
accepted, and a number of 64 bits behind it is then taken from 2⁶⁴. -/
def torParseUlong (min max : ℕ) (s : List UInt8) : Option ℕ :=
  match strtol s with
  | some (r, []) =>
    let value : ℤ := if -18446744073709551616 < r ∧ r < 0 then r + 18446744073709551616 else r
    if value < min ∨ (max : ℤ) < value then none else some value.toNat
  | _ => none

theorem toNat_ofNat_digit {c : Char} (h : c.isDigit = true) :
    (UInt8.ofNat c.toNat).toNat = c.toNat ∧ 48 ≤ c.toNat ∧ c.toNat ≤ 57 := by
  have hc : 48 ≤ c.toNat ∧ c.toNat ≤ 57 := by
    rw [Char.isDigit, Bool.and_eq_true, decide_eq_true_iff, decide_eq_true_iff] at h
    exact ⟨UInt32.le_iff_toNat_le.mp h.1, UInt32.le_iff_toNat_le.mp h.2⟩
  refine ⟨?_, hc⟩
  rw [UInt8.toNat_ofNat']
  omega

theorem isDigit_of_mem_decimal {n : ℕ} {b : UInt8} (h : b ∈ decimal n) : isDigit b = true := by
  obtain ⟨c, hc, rfl⟩ := List.mem_map.mp h
  obtain ⟨hval, hlo, hhi⟩ := toNat_ofNat_digit (Nat.isDigit_of_mem_toDigits (by decide) (by decide) hc)
  rw [isDigit, hval]
  simp only [Bool.and_eq_true, decide_eq_true_eq]
  omega

theorem decimal_ne_nil (n : ℕ) : decimal n ≠ [] := by
  rw [decimal, Ne, List.map_eq_nil_iff]
  exact Nat.toDigits_ne_nil

theorem decimalValue_map : ∀ (cs : List Char) (n : ℕ), (∀ c ∈ cs, c.isDigit = true) →
    (cs.map fun c => UInt8.ofNat c.toNat).foldl (fun n b => 10 * n + (b.toNat - 48)) n =
      Nat.ofDigitChars 10 cs n
  | [], _, _ => rfl
  | c :: cs, n, h => by
    obtain ⟨hval, -⟩ := toNat_ofNat_digit (h c (by simp))
    rw [List.map_cons, List.foldl_cons, hval, Nat.ofDigitChars_cons,
      decimalValue_map cs _ fun c hc => h c (by simp [hc])]
    rfl

theorem decimalValue_decimal (n : ℕ) : decimalValue (decimal n) = n := by
  rw [decimalValue, decimal, decimalValue_map _ _ fun c hc =>
    Nat.isDigit_of_mem_toDigits (by decide) (by decide) hc]
  exact Nat.ofDigitChars_ten_toDigits

/-- A printed number is read back if no digit follows it. -/
theorem readDecimal_decimal (n : ℕ) {rest : List UInt8} (h : ∀ b ∈ rest.head?, isDigit b = false) :
    readDecimal (decimal n ++ rest) = some (n, rest) := by
  have hall : ∀ b ∈ decimal n, isDigit b = true := fun b hb => isDigit_of_mem_decimal hb
  have htake : rest.takeWhile isDigit = [] ∧ rest.dropWhile isDigit = rest := by
    cases rest with
    | nil => exact ⟨rfl, rfl⟩
    | cons b rest =>
      have hb := h b rfl
      rw [List.takeWhile_cons_of_neg (by simp [hb]), List.dropWhile_cons_of_neg (by simp [hb])]
      exact ⟨rfl, rfl⟩
  rw [readDecimal, List.takeWhile_append_of_pos hall, List.dropWhile_append_of_pos hall, htake.1,
    htake.2, List.append_nil, if_neg (decimal_ne_nil n), decimalValue_decimal]

theorem length_decimal_le {n k : ℕ} (h : n < 10 ^ k) (hk : 0 < k) : (decimal n).length ≤ k := by
  rw [decimal, List.length_map]
  exact (Nat.length_toDigits_le_iff (by decide) hk).mpr h

end Dittor.Lib

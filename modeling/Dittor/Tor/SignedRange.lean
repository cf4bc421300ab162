import Dittor.Tor.Tokenizer

/-!
# The signed part of a document (`sigcommon.c`)

Which bytes of a document its signatures cover is found by searching its text, not from its
items.
-/

namespace Dittor.Tor

open Dittor.Lib

/-- `router_get_hash_impl_helper`: what stands before the first `startStr`, which must begin a
line, and the bytes from there through the first `endC` behind the next `endStr`. -/
def routerGetHashImplHelper (startStr endStr : Bytes) (endC : UInt8) (s : Bytes) :
    Option (Bytes × Bytes) :=
  match memstr startStr s with
  | none => none
  | some (before, start) =>
    if before ≠ [] ∧ before.getLast? ≠ some (byte '\n') then none
    else
      match memstr endStr (start.drop startStr.length) with
      | none => none
      | some (text, stop) =>
        let behind := stop.drop endStr.length
        if endC ∈ behind then
          some (before, startStr ++ text ++ endStr ++ behind.takeWhile (· ≠ endC) ++ [endC])
        else none

end Dittor.Tor

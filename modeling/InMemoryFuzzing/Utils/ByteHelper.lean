import InMemoryFuzzing.Platform.DotNet

/-!
# `ByteHelper.ByteArrayToUInt64`

The shift distance of the big-endian branch is `8 * (length - offset - i - 1)`,
where the digit at index `i` has the weight `8 * (offset + length - i - 1)`: they
differ by `16 * offset`. A shift of a 64-bit value uses only the low six bits of
its distance, so the branch is right at every offset divisible by four.
-/

namespace InMemoryFuzzing.Utils

open Base Platform DotNet

/-- The shift distance for the byte at index `i`; it may be negative. -/
def shiftDistance (offset length i : Nat) (useLittleEndian : Bool) : Int :=
  if useLittleEndian then 8 * ((i : Int) - offset) else 8 * ((length : Int) - offset - i - 1)

/-- `ByteArrayToUInt64`. Shifting a `UInt64` masks the distance to six bits, in
C# as here. -/
def byteArrayToUInt64 (data : List UInt8) (offset length : Nat) (useLittleEndian : Bool) :
    Except NetException UInt64 :=
  if data.length < offset + length then .error .outOfRange
  else .ok <| (List.range' offset length).foldl (fun myNumber i => myNumber +
    (data.getD i 0).toUInt64 <<< UInt64.ofInt (shiftDistance offset length i useLittleEndian)) 0

end InMemoryFuzzing.Utils

import InMemoryFuzzing.Base.Endian
import InMemoryFuzzing.Base.Text
import Mathlib.Data.List.TakeWhile

/-!
# The C side: integers, strings and the byte codecs of `remote_control.c`

C integers are `Int`; a conversion to `int16_t` is the balanced remainder
(two's complement, as every compiler the program is built with defines it).
Pointers into a byte buffer are suffixes of its byte list.
-/

namespace InMemoryFuzzing.Platform.CLib

open Base

/-- Conversion to `int16_t`. -/
def int16 (x : Int) : Int := Int.bmod x 65536

/-- `read_int16_t` on the two bytes at the pointer. -/
def readInt16T (b0 b1 : UInt8) : Int :=
  int16 (int16 b0.toNat + int16 ((b1.toNat : Int) * 256))

/-- `write_int16_t`: the two bytes stored for `value`. -/
def writeInt16T (value : Int) : List UInt8 :=
  [UInt8.ofInt value, UInt8.ofInt (value / 256)]

/-- Conversion to `int32_t`. -/
def int32 (x : Int) : Int := Int.bmod x (2 ^ 32)

/-- `write_int32_t`: the four bytes stored for `value`. -/
def writeInt32T (value : Int) : List UInt8 :=
  [UInt8.ofInt value, UInt8.ofInt (value / 2 ^ 8), UInt8.ofInt (value / 2 ^ 16),
    UInt8.ofInt (value / 2 ^ 24)]

/-- `strlen`: bytes before the terminator. -/
def strlen (s : List UInt8) : Nat := (s.takeWhile (· ≠ 0)).length

/-- `strncpy(dst, src, n)`: the `n` bytes stored, copied up to a terminator and
padded with zeros behind it. -/
def strncpy (n : Nat) (src : List UInt8) : List UInt8 :=
  let text := (src.take n).takeWhile (· ≠ 0)
  text ++ List.replicate (n - text.length) 0

/-- `strncmp(a, b, n) == 0`, on strings whose terminator may be left out. -/
def strncmpEq : Nat → List UInt8 → List UInt8 → Bool
  | 0, _, _ => true
  | n + 1, a, b =>
      a.headD 0 == b.headD 0 && (a.headD 0 == 0 || strncmpEq n a.tail b.tail)

/-- `strdup`: the bytes up to the terminator, and the terminator. -/
def strdup (s : List UInt8) : List UInt8 := s.takeWhile (· ≠ 0) ++ [0]

/-- `write_string` into a buffer of `maxLength` bytes: the value returned and the
bytes stored at the pointer. `none` where `memcpy` gets a negative count: it is
converted to one far larger than any buffer. -/
def writeString (maxLength : Int) (dataBuffer : List UInt8) (length : Int) :
    Option (Int × List UInt8) :=
  let length := if length < 0 then int16 (strlen dataBuffer) else length
  if maxLength < length + 2 then some (-1, [])
  else if length < 0 then none
  else some (length, writeInt16T length ++ dataBuffer.take length.toNat)

/-! ## Formats -/

/-- `%d`. -/
def formatD (value : Int) : List Char :=
  if value < 0 then '-' :: Nat.toDigits 10 value.natAbs else Nat.toDigits 10 value.natAbs

/-- `%lu`. -/
def formatLu (value : UInt64) : List Char := Nat.toDigits 10 value.toNat

/-- `%p`, as glibc prints it. -/
def formatP (pointer : UInt64) : List Char :=
  if pointer = 0 then "(nil)".toList else "0x".toList ++ Nat.toDigits 16 pointer.toNat

/-- The bytes of an ASCII text. -/
def textBytes (text : List Char) : List UInt8 := text.map fun c => UInt8.ofNat c.toNat

@[simp] theorem textBytes_length (text : List Char) : (textBytes text).length = text.length :=
  List.length_map ..

/-! ## What is written and read back -/

theorem readInt16T_eq (b0 b1 : UInt8) : readInt16T b0 b1 = int16 (fromLE [b0, b1]) := by
  have hsum : (b0.toNat : Int) + b1.toNat * 256 = (fromLE [b0, b1] : Nat) := by
    simp only [fromLE_cons, fromLE_nil]
    push_cast
    ring
  rw [readInt16T, int16, int16, int16, Int.bmod_add_bmod, Int.add_bmod_bmod, hsum, int16]

theorem writeInt16T_natCast (n : Nat) : writeInt16T n = toLE 2 n := by
  have hbyte : ∀ m : Nat, UInt8.ofInt (m : Int) = UInt8.ofNat m := by
    intro m
    apply UInt8.toNat_inj.mp
    rw [UInt8.ofInt, UInt8.toNat_ofNat', UInt8.toNat_ofNat']
    omega
  have hdiv : ((n : Int) / 256) = ((n / 256 : Nat) : Int) := by omega
  rw [writeInt16T, hdiv, hbyte, hbyte]
  rfl

/-- An `int16_t` value survives being written and read back. -/
theorem int16_fromLE_writeInt16T {value : Int} (lo : -32768 ≤ value) (hi : value < 32768) :
    int16 (fromLE (writeInt16T value)) = value := by
  have h0 : ((UInt8.ofInt value).toNat : Int) = value % 256 := by
    rw [UInt8.ofInt, UInt8.toNat_ofNat']
    omega
  have h1 : ((UInt8.ofInt (value / 256)).toNat : Int) = value / 256 % 256 := by
    rw [UInt8.ofInt, UInt8.toNat_ofNat']
    omega
  simp only [writeInt16T, fromLE_cons, fromLE_nil, int16, Int.bmod]
  push_cast
  rw [h0, h1]
  split <;> omega

/-- An `int32_t` value survives being written and read back. -/
theorem int32_fromLE_writeInt32T {value : Int} (lo : -2 ^ 31 ≤ value) (hi : value < 2 ^ 31) :
    int32 (fromLE (writeInt32T value)) = value := by
  have hbyte : ∀ x : Int, ((UInt8.ofInt x).toNat : Int) = x % 256 := by
    intro x
    rw [UInt8.ofInt, UInt8.toNat_ofNat']
    omega
  simp only [writeInt32T, fromLE_cons, fromLE_nil, int32, Int.bmod]
  push_cast
  rw [hbyte, hbyte, hbyte, hbyte]
  split <;> omega

@[simp] theorem writeInt32T_length (value : Int) : (writeInt32T value).length = 4 := rfl

@[simp] theorem writeInt16T_length (value : Int) : (writeInt16T value).length = 2 := rfl

/-- A terminator-free source of full length is copied unchanged. -/
theorem strncpy_of_nonzero {n : Nat} {src : List UInt8} (hlen : n ≤ src.length)
    (hnz : ∀ b ∈ src.take n, b ≠ 0) : strncpy n src = src.take n := by
  have htext : (src.take n).takeWhile (· ≠ 0) = src.take n := by
    rw [List.takeWhile_eq_self_iff]
    intro b hb
    simpa using hnz b hb
  simp only [strncpy]
  rw [htext, List.length_take, Nat.min_eq_left hlen]
  simp

end InMemoryFuzzing.Platform.CLib

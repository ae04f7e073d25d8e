import Mathlib.Data.Nat.Digits.Defs
import Mathlib.Tactic.Ring

/-!
# Fixed-width byte order

`toLE w n` is the `w`-byte little-endian image of `n`, `fromLE` the value of a
byte string read little-endian; the big-endian pair is their reversal. The
value side is `Nat.ofDigits`, so its algebra is Mathlib's.
-/

namespace InMemoryFuzzing.Base

/-- The `w` low bytes of `n`, least significant first. -/
def toLE : Nat → Nat → List UInt8
  | 0, _ => []
  | w + 1, n => UInt8.ofNat n :: toLE w (n / 256)

/-- The value of a byte string, least significant byte first. -/
def fromLE (bytes : List UInt8) : Nat := Nat.ofDigits 256 (bytes.map UInt8.toNat)

/-- The `w` low bytes of `n`, most significant first. -/
def toBE (w n : Nat) : List UInt8 := (toLE w n).reverse

/-- The value of a byte string, most significant byte first. -/
def fromBE (bytes : List UInt8) : Nat := fromLE bytes.reverse

@[simp] theorem fromLE_nil : fromLE [] = 0 := rfl

@[simp] theorem fromLE_cons (b : UInt8) (rest : List UInt8) :
    fromLE (b :: rest) = b.toNat + 256 * fromLE rest := by
  simp [fromLE, Nat.ofDigits_cons]

@[simp] theorem toLE_length (w n : Nat) : (toLE w n).length = w := by
  induction w generalizing n with
  | zero => rfl
  | succ w ih => simp [toLE, ih]

@[simp] theorem toBE_length (w n : Nat) : (toBE w n).length = w := by
  simp [toBE]

theorem fromLE_toLE (w n : Nat) : fromLE (toLE w n) = n % 256 ^ w := by
  induction w generalizing n with
  | zero => simp [toLE, Nat.mod_one]
  | succ w ih =>
      have hbyte : (UInt8.ofNat n).toNat = n % 256 := by simp
      rw [toLE, fromLE_cons, ih, hbyte, pow_succ', Nat.mod_mul]

theorem fromBE_toBE (w n : Nat) : fromBE (toBE w n) = n % 256 ^ w := by
  rw [fromBE, toBE, List.reverse_reverse, fromLE_toLE]

theorem fromLE_lt (bytes : List UInt8) : fromLE bytes < 256 ^ bytes.length := by
  induction bytes with
  | nil => simp
  | cons b rest ih =>
      have hb : b.toNat < 256 := b.toNat_lt
      rw [fromLE_cons, List.length_cons, pow_succ']
      omega

theorem fromBE_lt (bytes : List UInt8) : fromBE bytes < 256 ^ bytes.length := by
  simpa [fromBE] using fromLE_lt bytes.reverse

/-- A byte string is the image of its own value. -/
theorem toLE_fromLE (bytes : List UInt8) : toLE bytes.length (fromLE bytes) = bytes := by
  induction bytes with
  | nil => rfl
  | cons b rest ih =>
      have hb : b.toNat < 256 := b.toNat_lt
      have hhead : UInt8.ofNat (b.toNat + 256 * fromLE rest) = b := by
        apply UInt8.toNat_inj.mp
        rw [UInt8.toNat_ofNat']
        omega
      have htail : (b.toNat + 256 * fromLE rest) / 256 = fromLE rest := by omega
      rw [List.length_cons, fromLE_cons, toLE, hhead, htail, ih]

theorem toBE_fromBE (bytes : List UInt8) : toBE bytes.length (fromBE bytes) = bytes := by
  have h := toLE_fromLE bytes.reverse
  rw [List.length_reverse] at h
  rw [toBE, fromBE, h, List.reverse_reverse]

theorem fromLE_append (front back : List UInt8) :
    fromLE (front ++ back) = fromLE front + 256 ^ front.length * fromLE back := by
  simp [fromLE, Nat.ofDigits_append]

@[simp] theorem fromBE_nil : fromBE [] = 0 := rfl

end InMemoryFuzzing.Base

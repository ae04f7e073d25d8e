import InMemoryFuzzing.Base.DigitSums
import InMemoryFuzzing.Utils.ByteHelper

/-!
# What `ByteArrayToUInt64` decodes

The little-endian branch is right everywhere. In the big-endian branch the distances are too short
by sixteen bits for each byte in front of the offset, and the mask lets the bytes come back in at
the other end: the number is the right one with its eight bytes rotated by twice the offset
(`byteArrayToUInt64_rotated`).
-/

namespace InMemoryFuzzing.Utils

open Base Platform DotNet Finset

/-- The bytes of the number, eight of them, the last one of the array first. -/
def eightBytes (data : List UInt8) (offset length : Nat) : List UInt8 :=
  ((data.drop offset).take length).reverse ++ List.replicate (8 - length) 0

/-- The number is decoded in both byte orders. -/
def Decodes (data : List UInt8) (offset length : Nat) : Prop :=
  (∃ value, byteArrayToUInt64 data offset length true = .ok value ∧
      value.toNat = ∑ k ∈ range length, (data.getD (offset + k) 0).toNat * 256 ^ k) ∧
    ∃ value, byteArrayToUInt64 data offset length false = .ok value ∧
      value.toNat = ∑ k ∈ range length, (data.getD (offset + k) 0).toNat * 256 ^ (length - 1 - k)

/-! ## The loop -/

/-- The loop adds, modulo the width of the number. -/
theorem foldl_toNat (f : Nat → UInt64) (offset n : Nat) :
    ((List.range' offset n).foldl (fun myNumber i => myNumber + f i) 0).toNat =
      (∑ k ∈ range n, (f (offset + k)).toNat) % 2 ^ 64 := by
  induction n with
  | zero => rfl
  | succ n ih =>
      rw [List.range'_1_concat, List.foldl_append, List.foldl_cons, List.foldl_nil, UInt64.toNat_add,
        ih, sum_range_succ, Nat.mod_add_mod]

/-- A byte that is shifted to one of the eight places. -/
theorem shifted_toNat {distance : Int} {place : Nat} (hplace : place < 8)
    (hdistance : (UInt64.ofInt distance).toNat % 64 = 8 * place) (b : UInt8) :
    (b.toUInt64 <<< UInt64.ofInt distance).toNat = b.toNat * 256 ^ place := by
  have hpow : (2 : Nat) ^ (8 * place) = 256 ^ place := by
    rw [pow_mul]
    rfl
  have hb : b.toNat < 256 := b.toNat_lt
  have hle : (256 : Nat) ^ place ≤ 256 ^ 7 := Nat.pow_le_pow_right (by omega) (by omega)
  have hlt : b.toNat * 256 ^ place < 2 ^ 64 := by
    calc b.toNat * 256 ^ place < 256 * 256 ^ place :=
          Nat.mul_lt_mul_of_pos_right hb (Nat.pow_pos (by omega))
      _ ≤ 256 * 256 ^ 7 := Nat.mul_le_mul_left _ hle
      _ = 2 ^ 64 := by norm_num
  rw [UInt64.toNat_shiftLeft, hdistance, UInt8.toNat_toUInt64, Nat.shiftLeft_eq, hpow,
    Nat.mod_eq_of_lt hlt]

variable {data : List UInt8} {offset length : Nat}

/-- The digits with the weights of their places. -/
theorem byteArrayToUInt64_places {useLittleEndian : Bool} {place : Nat → Nat}
    (hdata : offset + length ≤ data.length) (hplace : ∀ k < length, place k < 8)
    (hdistance : ∀ k < length, (UInt64.ofInt
      (shiftDistance offset length (offset + k) useLittleEndian)).toNat % 64 = 8 * place k) :
    ∃ value, byteArrayToUInt64 data offset length useLittleEndian = .ok value ∧
      value.toNat = (∑ k ∈ range length, (data.getD (offset + k) 0).toNat * 256 ^ place k) %
        2 ^ 64 := by
  refine ⟨_, if_neg (by omega), ?_⟩
  rw [foldl_toNat]
  congr 1
  refine sum_congr rfl fun k hk => ?_
  have hlt := mem_range.mp hk
  exact shifted_toNat (hplace k hlt) (hdistance k hlt) _

/-! ## The digits -/

theorem eightBytes_length (hlength : length ≤ 8) (hdata : offset + length ≤ data.length) :
    (eightBytes data offset length).length = 8 := by
  simp only [eightBytes, List.length_append, List.length_reverse, List.length_take, List.length_drop,
    List.length_replicate]
  omega

/-- A sum over the eight bytes, whatever the weights of their places are. -/
theorem sum_eightBytes (hlength : length ≤ 8) (hdata : offset + length ≤ data.length)
    (weight : Nat → Nat) :
    ∑ j ∈ range 8, ((eightBytes data offset length).getD j 0).toNat * weight j =
      ∑ k ∈ range length, (data.getD (offset + k) 0).toNat * weight (length - 1 - k) := by
  have htake : ((data.drop offset).take length).length = length := by
    rw [List.length_take, List.length_drop]
    omega
  rw [← sum_range_reflect
    (fun k => (data.getD (offset + k) 0).toNat * weight (length - 1 - k)) length]
  symm
  apply sum_subset_zero_on_sdiff (range_subset_range.mpr hlength)
  · intro j hj
    have hout : ¬j < length := fun hlt => (mem_sdiff.mp hj).2 (mem_range.mpr hlt)
    have hzero : (eightBytes data offset length).getD j 0 = 0 := by
      rw [List.getD_eq_getElem?_getD, eightBytes, List.getElem?_append_right (by simp; omega),
        List.getElem?_replicate]
      split <;> rfl
    rw [hzero]
    simp
  · intro j hj
    have hlt := mem_range.mp hj
    have hplace : length - 1 - (length - 1 - j) = j := by omega
    rw [hplace, List.getD_eq_getElem?_getD, List.getD_eq_getElem?_getD, eightBytes,
      List.getElem?_append_left (by rw [List.length_reverse, htake]; exact hlt),
      List.getElem?_reverse (by rw [htake]; exact hlt), htake, List.getElem?_take_of_lt (by omega),
      List.getElem?_drop]

theorem fromLE_eightBytes (hlength : length ≤ 8) (hdata : offset + length ≤ data.length) :
    fromLE (eightBytes data offset length) =
      ∑ k ∈ range length, (data.getD (offset + k) 0).toNat * 256 ^ (length - 1 - k) := by
  rw [fromLE_eq_sum, eightBytes_length hlength hdata]
  exact sum_eightBytes hlength hdata fun j => 256 ^ j

/-! ## The two branches -/

theorem byteArrayToUInt64_littleEndian (hlength : length ≤ 8)
    (hdata : offset + length ≤ data.length) :
    ∃ value, byteArrayToUInt64 data offset length true = .ok value ∧
      value.toNat = ∑ k ∈ range length, (data.getD (offset + k) 0).toNat * 256 ^ k := by
  have hdistance : ∀ k < length, (UInt64.ofInt
      (shiftDistance offset length (offset + k) true)).toNat % 64 = 8 * k := by
    intro k hk
    simp only [shiftDistance, UInt64.ofInt, UInt64.toNat_ofNat', if_true]
    omega
  obtain ⟨value, hvalue, hsum⟩ :=
    byteArrayToUInt64_places hdata (fun k hk => by omega) hdistance
  have htake : ((data.drop offset).take length).length = length := by
    rw [List.length_take, List.length_drop]
    omega
  have hbytes : ∑ k ∈ range length, (data.getD (offset + k) 0).toNat * 256 ^ k =
      fromLE ((data.drop offset).take length) := by
    rw [fromLE_eq_sum, htake]
    refine sum_congr rfl fun k hk => ?_
    rw [List.getD_eq_getElem?_getD, List.getD_eq_getElem?_getD,
      List.getElem?_take_of_lt (mem_range.mp hk), List.getElem?_drop]
  have hlt := fromLE_lt ((data.drop offset).take length)
  rw [htake] at hlt
  have hpow : (256 : Nat) ^ length ≤ 2 ^ 64 := by
    calc (256 : Nat) ^ length ≤ 256 ^ 8 := Nat.pow_le_pow_right (by omega) hlength
      _ = 2 ^ 64 := by norm_num
  refine ⟨value, hvalue, ?_⟩
  rw [hsum, hbytes, Nat.mod_eq_of_lt (by omega)]

/-- The big-endian branch decodes the rotated bytes. -/
theorem byteArrayToUInt64_rotated (hlength : length ≤ 8) (hdata : offset + length ≤ data.length) :
    ∃ value, byteArrayToUInt64 data offset length false = .ok value ∧
      value.toNat = fromLE ((eightBytes data offset length).rotate (2 * offset)) := by
  -- modulo eight places, twice the offset down is six times the offset up
  have hdistance : ∀ k < length, (UInt64.ofInt
      (shiftDistance offset length (offset + k) false)).toNat % 64 =
        8 * ((length - 1 - k + 6 * offset) % 8) := by
    intro k hk
    simp only [shiftDistance, UInt64.ofInt, UInt64.toNat_ofNat', Bool.false_eq_true, if_false]
    omega
  obtain ⟨value, hvalue, hsum⟩ :=
    byteArrayToUInt64_places hdata (fun k _ => Nat.mod_lt _ (by omega)) hdistance
  have height := eightBytes_length hlength hdata
  have hshift : (2 * offset + 6 * offset) % (eightBytes data offset length).length = 0 := by
    rw [height]
    omega
  have hrotate := fromLE_rotate (by omega : 0 < (eightBytes data offset length).length) hshift
  rw [height, sum_eightBytes hlength hdata fun j => 256 ^ ((j + 6 * offset) % 8)] at hrotate
  have hlt := fromLE_lt ((eightBytes data offset length).rotate (2 * offset))
  rw [List.length_rotate, height] at hlt
  refine ⟨value, hvalue, ?_⟩
  rw [hsum, ← hrotate, Nat.mod_eq_of_lt (by omega)]

/-- At offsets divisible by four the rotation is by whole turns, and a big-endian number is decoded as
such. -/
theorem byteArrayToUInt64_bigEndian (hoffset : offset % 4 = 0) (hlength : length ≤ 8)
    (hdata : offset + length ≤ data.length) :
    ∃ value, byteArrayToUInt64 data offset length false = .ok value ∧
      value.toNat = fromBE ((data.drop offset).take length) := by
  obtain ⟨value, hvalue, hrotated⟩ := byteArrayToUInt64_rotated hlength hdata
  have hturns : (eightBytes data offset length).rotate (2 * offset) =
      eightBytes data offset length := by
    rw [← List.rotate_mod, eightBytes_length hlength hdata, (by omega : 2 * offset % 8 = 0),
      List.rotate_zero]
  refine ⟨value, hvalue, ?_⟩
  rw [hrotated, hturns, eightBytes, fromLE_append, fromLE_zeros, Nat.mul_zero, Nat.add_zero]
  rfl

/-- The number is decoded in both orders if and only if the rotation leaves its eight bytes as they
are. -/
theorem byteArrayToUInt64_decodes_iff (hlength : length ≤ 8)
    (hdata : offset + length ≤ data.length) :
    Decodes data offset length ↔
      (eightBytes data offset length).rotate (2 * offset) = eightBytes data offset length := by
  obtain ⟨value, hvalue, hrotated⟩ := byteArrayToUInt64_rotated hlength hdata
  have hlittle := byteArrayToUInt64_littleEndian hlength hdata
  rw [← fromLE_inj (by rw [List.length_rotate]), ← hrotated, fromLE_eightBytes hlength hdata]
  constructor
  · rintro ⟨-, other, hother, hsum⟩
    rw [hvalue] at hother
    cases hother
    exact hsum
  · exact fun hsum => ⟨hlittle, value, hvalue, hsum⟩

/-- The record parser reads four bytes at offset 4. -/
theorem four_bytes_at_four : Decodes [0, 0, 0, 0, 1, 2, 3, 4] 4 4 :=
  (byteArrayToUInt64_decodes_iff (by omega) (by simp)).mpr rfl

/-- One byte at offset 1. -/
theorem byte_at_one_shifted : ¬Decodes [0, 1] 1 1 := by
  rintro ⟨-, value, hvalue, hsum⟩
  have hshifted : byteArrayToUInt64 [0, 1] 1 1 false = .ok 281474976710656 := rfl
  rw [hshifted] at hvalue
  cases hvalue
  simp at hsum

end InMemoryFuzzing.Utils

import InMemoryFuzzing.Base.Endian
import Mathlib.Algebra.BigOperators.Intervals
import Mathlib.Algebra.BigOperators.Ring.Finset
import Mathlib.Data.List.Rotate

/-!
# Numbers as the sums of their digits

The value of a byte string is the sum of its digits, each with its weight, and different strings of
one length have different values. Rotating the string adds to the place of every digit
(`fromLE_rotate`).
-/

namespace InMemoryFuzzing.Base

open Finset

theorem fromLE_eq_sum (bytes : List UInt8) :
    fromLE bytes = ∑ i ∈ range bytes.length, (bytes.getD i 0).toNat * 256 ^ i := by
  induction bytes with
  | nil => rfl
  | cons b rest ih =>
      rw [fromLE_cons, ih, List.length_cons, sum_range_succ', mul_sum, List.getD_cons_zero, pow_zero,
        mul_one, add_comm]
      congr 1
      refine sum_congr rfl fun i _ => ?_
      rw [List.getD_cons_succ, pow_succ]
      ring

theorem fromLE_inj {s t : List UInt8} (hlength : s.length = t.length) :
    fromLE s = fromLE t ↔ s = t := by
  constructor
  · intro h
    rw [← toLE_fromLE s, ← toLE_fromLE t, h, hlength]
  · rintro rfl
    rfl

theorem fromLE_zeros (n : Nat) : fromLE (List.replicate n 0) = 0 := by
  induction n with
  | zero => rfl
  | succ n ih => rw [List.replicate_succ, fromLE_cons, ih]; rfl

/-- Every digit of a rotated string has moved by the distance that completes the rotation. -/
theorem fromLE_rotate {bytes : List UInt8} {k shift : Nat} (hpos : 0 < bytes.length)
    (hshift : (k + shift) % bytes.length = 0) :
    fromLE (bytes.rotate k) =
      ∑ j ∈ range bytes.length, (bytes.getD j 0).toNat * 256 ^ ((j + shift) % bytes.length) := by
  have hback : ∀ i < bytes.length, ((i + k) % bytes.length + shift) % bytes.length = i := by
    intro i hi
    rw [Nat.mod_add_mod, Nat.add_assoc, Nat.add_mod, hshift, Nat.add_zero, Nat.mod_mod,
      Nat.mod_eq_of_lt hi]
  have hforth : ∀ j < bytes.length, ((j + shift) % bytes.length + k) % bytes.length = j := by
    intro j hj
    rw [Nat.mod_add_mod, Nat.add_assoc, Nat.add_comm shift k, Nat.add_mod, hshift, Nat.add_zero,
      Nat.mod_mod, Nat.mod_eq_of_lt hj]
  rw [fromLE_eq_sum, List.length_rotate]
  refine sum_nbij' (fun i => (i + k) % bytes.length) (fun j => (j + shift) % bytes.length)
    ?_ ?_ ?_ ?_ ?_
  · exact fun i _ => mem_range.mpr (Nat.mod_lt _ hpos)
  · exact fun j _ => mem_range.mpr (Nat.mod_lt _ hpos)
  · exact fun i hi => hback i (mem_range.mp hi)
  · exact fun j hj => hforth j (mem_range.mp hj)
  · intro i hi
    have hlt := mem_range.mp hi
    rw [hback i hlt, List.getD_eq_getElem?_getD, List.getElem?_rotate hlt,
      List.getD_eq_getElem?_getD]

end InMemoryFuzzing.Base

import InMemoryFuzzing.Utils.OneTimeStream

/-!
# What a caller of `Stream.Read` relies on

A call returns how many bytes it has put into the buffer, nothing else in the buffer is changed,
and 0 is returned at the end only. `Delivered` says so of all calls one after the other; the bytes
they have put into the buffers are then the front of the contents (`Delivered.contents_eq`).
-/

namespace InMemoryFuzzing.Utils

/-- The call has put the first `n` of the remaining bytes into the buffer, and says so. -/
structure Delivers (remaining : List UInt8) (r : ReadResult) (n : Nat) : Prop where
  value : r.value = n
  count : n ≤ r.call.count
  available : n ≤ remaining.length
  buffer : r.buffer = r.call.buffer.take r.call.offset ++ remaining.take n ++
    r.call.buffer.drop (r.call.offset + n)

/-- The calls have delivered the contents up to what is left. -/
inductive Delivered : List UInt8 → List ReadResult → List UInt8 → Prop
  | nil (left : List UInt8) : Delivered left [] left
  | cons {remaining left : List UInt8} {r : ReadResult} {n : Nat} {results : List ReadResult}
      (hread : Delivers remaining r n) (hzero : n = 0 → remaining = [])
      (hrest : Delivered (remaining.drop n) results left) : Delivered remaining (r :: results) left

theorem Delivers.bytes_eq {remaining : List UInt8} {r : ReadResult} {n : Nat}
    (h : Delivers remaining r n) : r.bytes = remaining.take n := by
  have hoffset : (r.call.buffer.take r.call.offset).length = r.call.offset := by
    have hroom := r.call.room
    rw [List.length_take]
    omega
  have hcount : (remaining.take n).length = n := by
    have havailable := h.available
    rw [List.length_take]
    omega
  rw [ReadResult.bytes, h.value, h.buffer, List.append_assoc, List.drop_left' hoffset,
    Int.toNat_natCast, List.take_left' hcount]

/-- What the caller takes for read and what is left are the contents. -/
theorem Delivered.contents_eq {contents left : List UInt8} {results : List ReadResult}
    (h : Delivered contents results left) : contents = results.flatMap ReadResult.bytes ++ left := by
  induction h with
  | nil left => rfl
  | cons hread _ _ ih =>
      rw [List.flatMap_cons, hread.bytes_eq, List.append_assoc, ← ih, List.take_append_drop]

end InMemoryFuzzing.Utils

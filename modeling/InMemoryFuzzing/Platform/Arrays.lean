import InMemoryFuzzing.Platform.DotNet

/-!
# Arrays and lists of .NET

Access by index and `Array.Copy`; what is outside of the array raises.
-/

namespace InMemoryFuzzing.Platform.DotNet

variable {α : Type}

/-- The element at an index. -/
def elementAt (list : List α) (index : Nat) : Except NetException α :=
  match list[index]? with
  | some x => .ok x
  | none => .error .outOfRange

/-- `List.RemoveRange (0, count)`. -/
def removeRange (list : List α) (count : Nat) : Except NetException (List α) :=
  if count ≤ list.length then .ok (list.drop count) else .error .outOfRange

/-- `Array.Copy`: the destination array after it. -/
def arrayCopy (source : List α) (sourceIndex : Int) (destination : List α)
    (destinationIndex length : Int) : Except NetException (List α) :=
  if 0 ≤ sourceIndex ∧ 0 ≤ destinationIndex ∧ 0 ≤ length ∧
      sourceIndex + length ≤ source.length ∧ destinationIndex + length ≤ destination.length then
    .ok (destination.take destinationIndex.toNat ++
      (source.drop sourceIndex.toNat).take length.toNat ++
      destination.drop (destinationIndex + length).toNat)
  else .error .outOfRange

theorem elementAt_of_drop {list : List α} {index : Nat} {x : α} {rest : List α}
    (h : list.drop index = x :: rest) : elementAt list index = .ok x := by
  have hget : list[index]? = some x := by
    rw [← List.head?_drop, h, List.head?_cons]
  rw [elementAt, hget]

/-- A copy inside of both arrays. -/
theorem arrayCopy_ok {source destination : List α} {si di n : Nat}
    (hsource : si + n ≤ source.length) (hdestination : di + n ≤ destination.length) :
    arrayCopy source si destination di n =
      .ok (destination.take di ++ (source.drop si).take n ++ destination.drop (di + n)) := by
  have hdi : ((di : Int) + n).toNat = di + n := by omega
  rw [arrayCopy, if_pos (by omega), hdi]
  rfl

theorem copied_length {destination source : List α} {di n : Nat} (hsource : n ≤ source.length)
    (hdestination : di + n ≤ destination.length) :
    (destination.take di ++ source.take n ++ destination.drop (di + n)).length =
      destination.length := by
  simp only [List.length_append, List.length_take, List.length_drop]
  omega

/-- What has been copied behind `k` elements from a place on. -/
theorem copied_window {destination source : List α} {place k n c : Nat}
    (hsource : n ≤ source.length) (hdestination : place + k + n ≤ destination.length) (hc : c ≤ n) :
    ((destination.take (place + k) ++ source.take n ++
        destination.drop (place + k + n)).drop place).take (k + c) =
      (destination.drop place).take k ++ source.take c := by
  have hfront : (destination.take (place + k)).drop place = (destination.drop place).take k := by
    rw [List.drop_take]
    congr 1
    omega
  have hk : ((destination.drop place).take k).length = k := by
    simp only [List.length_take, List.length_drop]
    omega
  have hn : (source.take n).length = n := by
    simp only [List.length_take]
    omega
  rw [List.append_assoc, List.drop_append_of_le_length (by rw [List.length_take]; omega), hfront,
    List.take_append, hk, List.take_of_length_le (by omega), Nat.add_sub_cancel_left,
    List.take_append_of_le_length (by omega), List.take_take, Nat.min_eq_left hc]

end InMemoryFuzzing.Platform.DotNet

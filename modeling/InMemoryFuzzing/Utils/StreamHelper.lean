import InMemoryFuzzing.Platform.Stream

/-!
# `StreamHelper`: length-prefixed byte blocks

`WriteInt32` and `WriteBytesSafe`, as the bytes they write, and the readers
`ReadBytes`, `ReadInt32` and `ReadBytesSafe`. A reader that raises leaves the
stream at an unspecified place, so it returns no stream then.
-/

namespace InMemoryFuzzing.Utils

open Platform DotNet

/-! ## Writers -/

/-- `WriteInt32`. -/
def writeInt32 (value : Int) : List UInt8 := getBytesInt32 value

/-- `WriteUInt64`. -/
def writeUInt64 (value : UInt64) : List UInt8 := getBytesUInt64 value

/-- `WriteInt64`. -/
def writeInt64 (value : Int64) : List UInt8 := getBytesInt64 value

/-- `WriteBytesSafe`: null is the length -1. -/
def writeBytesSafe : Option (List UInt8) → List UInt8
  | none => writeInt32 (-1)
  | some data => writeInt32 data.length ++ data

/-- `WriteBool`. -/
def writeBool (isResponse : Bool) : List UInt8 := if isResponse then [1] else [0]

/-- `WriteString`, not null: the bytes in UTF-8 behind their number. -/
def writeString (value : String) : List UInt8 :=
  writeInt32 value.toUTF8.size ++ value.toUTF8.toList

/-- `WriteTypedStreamSerializable`, not null: what `Write` writes behind the identifier. -/
def writeTypedStreamSerializable (identifier : String) (written : List UInt8) : List UInt8 :=
  writeBool true ++ writeString identifier ++ written

/-! ## Readers -/

/-- `ReadBytes`: all the bytes asked for, or an exception. -/
def readBytes (length : Int) (src : Source) : Except NetException (List UInt8 × Source) :=
  -- `new byte[length]`
  if length < 0 then .error .overflow
  else
    let read := src.read length.toNat
    if (read.1.length : Int) ≠ length then .error (.argument "Could not read enough bytes!")
    else .ok read

/-- `ReadInt32`. -/
def readInt32 (src : Source) : Except NetException (Int × Source) := do
  let (buf, src) ← readBytes 4 src
  let value ← toInt32 buf 0
  return (value, src)

/-- `ReadUInt64`. -/
def readUInt64 (src : Source) : Except NetException (UInt64 × Source) := do
  let (buf, src) ← readBytes 8 src
  let value ← toUInt64 buf 0
  return (value, src)

/-- `ReadInt64`. -/
def readInt64 (src : Source) : Except NetException (Int64 × Source) := do
  let (buf, src) ← readBytes 8 src
  let value ← toInt64 buf 0
  return (value, src)

/-- `ReadBytesSafe`: a block, or null for the length -1. -/
def readBytesSafe (src : Source) : Except NetException (Option (List UInt8) × Source) := do
  let (length, src) ← readInt32 src
  if length = -1 then return (none, src)
  else
    let (buf, src) ← readBytes length src
    return (some buf, src)

/-- What is read is a prefix of the stream. -/
theorem readBytes_ok {length : Int} {src rest : Source} {buf : List UInt8}
    (h : readBytes length src = .ok (buf, rest)) :
    src = buf ++ rest ∧ (buf.length : Int) = length := by
  unfold readBytes at h
  by_cases hneg : length < 0
  · rw [if_pos hneg] at h
    cases h
  · rw [if_neg hneg] at h
    by_cases hlen : ((src.read length.toNat).1.length : Int) = length
    · rw [if_neg (not_not_intro hlen)] at h
      cases h
      exact ⟨(List.take_append_drop _ _).symm, hlen⟩
    · rw [if_pos hlen] at h
      cases h

theorem readInt32_ok {src rest : Source} {value : Int}
    (h : readInt32 src = .ok (value, rest)) : src.length = 4 + rest.length := by
  unfold readInt32 at h
  cases hbytes : readBytes 4 src with
  | error e => rw [hbytes] at h; cases h
  | ok r =>
      obtain ⟨buf, src'⟩ := r
      obtain ⟨rfl, hlen⟩ := readBytes_ok hbytes
      rw [hbytes] at h
      have hrest : src' = rest := by
        simp only [bind, Except.bind, pure, Except.pure] at h
        split at h
        · cases h
        · cases h; rfl
      rw [List.length_append, hrest]
      omega

/-- A block that is not null takes four bytes more than its own. -/
theorem readBytesSafe_ok {src rest : Source} {buf : List UInt8}
    (h : readBytesSafe src = .ok (some buf, rest)) :
    src.length = 4 + buf.length + rest.length := by
  unfold readBytesSafe at h
  cases hint : readInt32 src with
  | error e => rw [hint] at h; cases h
  | ok r =>
      obtain ⟨length, src'⟩ := r
      rw [hint] at h
      simp only [bind, Except.bind] at h
      split at h
      · cases h
      · cases hbytes : readBytes length src' with
        | error e => rw [hbytes] at h; cases h
        | ok r =>
            obtain ⟨buf', rest'⟩ := r
            rw [hbytes] at h
            cases h
            obtain ⟨hsplit, _⟩ := readBytes_ok hbytes
            rw [readInt32_ok hint, hsplit, List.length_append]
            exact (Nat.add_assoc _ _ _).symm

/-! ## Round trips -/

/-- As many bytes as are there are read. -/
theorem readBytes_append {length : Int} {buf : List UInt8} (h : (buf.length : Int) = length)
    (rest : Source) : readBytes length (buf ++ rest) = .ok (buf, rest) := by
  have hnat : length.toNat = buf.length := by omega
  rw [readBytes, if_neg (by omega)]
  simp only [Source.read, hnat, List.take_left, List.drop_left]
  exact if_neg (not_not_intro h)

theorem readInt32_writeInt32 {value : Int} (hlow : -2 ^ 31 ≤ value) (hhigh : value < 2 ^ 31)
    (rest : Source) : readInt32 (writeInt32 value ++ rest) = .ok (value, rest) := by
  have hlen : (getBytesInt32 value).length = 4 := Base.toLE_length _ _
  have hsigned : Int.bmod ((value % 2 ^ 32).toNat % 256 ^ 4 : Nat) (2 ^ 32) = value := by
    rw [Int.bmod]
    omega
  have hvalue : toInt32 (getBytesInt32 value) 0 = .ok value := by
    rw [toInt32, if_pos (by omega), List.drop_zero, List.take_of_length_le (by omega), getBytesInt32,
      Base.fromLE_toLE, hsigned]
  rw [readInt32, writeInt32, readBytes_append (by rw [hlen]; rfl)]
  simp only [bind, Except.bind, hvalue]
  rfl

theorem toUInt64_getBytesUInt64 (value : UInt64) :
    toUInt64 (getBytesUInt64 value) 0 = .ok value := by
  have hlen : (getBytesUInt64 value).length = 8 := Base.toLE_length _ _
  have hlt : value.toNat < 256 ^ 8 := value.toNat_lt
  rw [toUInt64, if_pos (by omega), List.drop_zero, List.take_of_length_le (by omega),
    getBytesUInt64, Base.fromLE_toLE, Nat.mod_eq_of_lt hlt, UInt64.ofNat_toNat]

theorem readUInt64_writeUInt64 (value : UInt64) (rest : Source) :
    readUInt64 (writeUInt64 value ++ rest) = .ok (value, rest) := by
  have hlen : (getBytesUInt64 value).length = 8 := Base.toLE_length _ _
  rw [readUInt64, writeUInt64, readBytes_append (by rw [hlen]; rfl)]
  simp only [bind, Except.bind, toUInt64_getBytesUInt64]
  rfl

theorem readInt64_writeInt64 (value : Int64) (rest : Source) :
    readInt64 (writeInt64 value ++ rest) = .ok (value, rest) := by
  have hlen : (getBytesUInt64 value.toUInt64).length = 8 := Base.toLE_length _ _
  rw [readInt64, writeInt64, getBytesInt64, readBytes_append (by rw [hlen]; rfl)]
  simp only [bind, Except.bind, toInt64, toUInt64_getBytesUInt64]
  rfl

/-- What `WriteBytesSafe` writes is read back; no array has 2^31 elements. -/
theorem readBytesSafe_writeBytesSafe {data : Option (List UInt8)}
    (h : ∀ bytes ∈ data, bytes.length < 2 ^ 31) (rest : Source) :
    readBytesSafe (writeBytesSafe data ++ rest) = .ok (data, rest) := by
  cases data with
  | none =>
      rw [readBytesSafe, writeBytesSafe, readInt32_writeInt32 (by simp) (by simp)]
      rfl
  | some bytes =>
      have hsize := h bytes rfl
      rw [readBytesSafe, writeBytesSafe, List.append_assoc,
        readInt32_writeInt32 (by omega) (by omega)]
      simp only [bind, Except.bind]
      rw [if_neg (by omega), readBytes_append rfl]
      rfl

end InMemoryFuzzing.Utils

import InMemoryFuzzing.Base.ReadBack
import InMemoryFuzzing.Platform.Utf8
import InMemoryFuzzing.Utils.StreamHelper

/-!
# `StreamHelper`: every codec

The writers and readers of `StreamHelper` that may be put one behind the other on one stream.
`WriteString` may raise when a part of its text is already in the sink, so writers say what they
have written and what they have raised.
-/

namespace InMemoryFuzzing.Utils.StreamHelper

open Base Platform DotNet

/-- A call of a writer. -/
abbrev Write := Written NetException UInt8

/-! ## Numbers -/

/-- `WriteUInt16`. -/
def writeUInt16 (value : UInt16) : List UInt8 := getBytesUInt16 value.toNat

/-- `ReadUInt16`. -/
def readUInt16 (src : Source) : Except NetException (UInt16 × Source) := do
  let (buf, src) ← readBytes 2 src
  let value ← toUInt16 buf 0
  return (value, src)

/-- `WriteUInt32`. -/
def writeUInt32 (value : UInt32) : List UInt8 := getBytesUInt32 value

/-- `ReadUInt32`. -/
def readUInt32 (src : Source) : Except NetException (UInt32 × Source) := do
  let (buf, src) ← readBytes 4 src
  let value ← toUInt32 buf 0
  return (value, src)

/-- `Stream.ReadByte`: -1 at the end. -/
def readByte : Source → Int × Source
  | [] => (-1, [])
  | b :: src => (b.toNat, src)

/-- `ReadBool`. -/
def readBool (src : Source) : Except NetException (Bool × Source) :=
  .ok ((readByte src).1 != 0, (readByte src).2)

/-- `WriteNullableInt32`. -/
def writeNullableInt32 : Option Int32 → List UInt8
  | none => writeBool false
  | some value => writeBool true ++ writeInt32 value.toInt

/-- `ReadNullableInt32`. -/
def readNullableInt32 (src : Source) : Except NetException (Option Int × Source) := do
  let (hasValue, src) ← readBool src
  if hasValue then
    let (value, src) ← readInt32 src
    return (some value, src)
  else return (none, src)

/-! ## Strings -/

/-- `Encoding.UTF8.GetByteCount`, which raises for null and where the number is no `int`. -/
def utf8GetByteCount : Option String → Except NetException Nat
  | none => .error (.argument "Argument cannot be null.")
  | some value =>
      if (utf8GetBytes value).length < 2 ^ 31 then .ok (utf8GetBytes value).length
      else .error .outOfRange

/-- `WriteString`. -/
def writeString (value : Option String) : Write :=
  -- there is no `else`: null goes on to `GetByteCount` behind its length
  (Written.ok (if value.isNone then writeInt32 (-1) else [])).andThen <|
    match utf8GetByteCount value with
    | .error e => .raise e
    | .ok count => .ok (writeInt32 count ++ value.elim [] utf8GetBytes)

/-- `ReadString`. -/
def readString (src : Source) : Except NetException (Option String × Source) := do
  let (length, src) ← readInt32 src
  if length = -1 then return (none, src)
  else
    let (buf, src) ← readBytes length src
    return (some (utf8GetString buf), src)

/-! ## Streams -/

/-- A read that returns something shortens the stream. -/
theorem read_shrinks {src : Source} {count : Nat} (h : 0 < (src.read count).1.length) :
    (src.read count).2.length < src.length := by
  simp only [Source.read, List.length_take, List.length_drop] at *
  omega

/-- The loop of `WriteStream`: what is in the source, block by block. -/
def copyLoop (src : Source) : List UInt8 :=
  let read := src.read 4096
  if 0 < read.1.length then read.1 ++ copyLoop read.2 else read.1
termination_by src.length
decreasing_by exact read_shrinks ‹_›

/-- `WriteStream`. -/
def writeStream (src : Source) : List UInt8 :=
  -- `(int)(src.Length - src.Position)`
  writeInt32 (castInt32 src.length) ++ copyLoop src

/-- A `MemoryStream`. -/
structure MemoryStream where
  contents : List UInt8
  position : Nat
  deriving DecidableEq, Repr

/-- The loop of `ReadStream`; `memSink` is written at its end. -/
def readStreamLoop (dataLength currentIndex : Int) (memSink : List UInt8) (src : Source) :
    Except NetException (List UInt8 × Source) :=
  let toRead := min 4096 (dataLength - currentIndex)
  -- `src.Read` of a negative count
  if toRead < 0 then .error .outOfRange
  else
    let read := src.read toRead.toNat
    let reached := currentIndex + read.1.length
    if reached < dataLength ∧ 0 < read.1.length then
      readStreamLoop dataLength reached (memSink ++ read.1) read.2
    else .ok (memSink ++ read.1, read.2)
termination_by src.length
decreasing_by
  rename_i hmore
  exact read_shrinks hmore.2

/-- `ReadStream`; the stream returned stands at its end. -/
def readStream (src : Source) : Except NetException (MemoryStream × Source) := do
  let (dataLength, src) ← readInt32 src
  let (contents, src) ← readStreamLoop dataLength 0 [] src
  return (⟨contents, contents.length⟩, src)

/-! ## What is written is read back -/

theorem reads_uint16 (value : UInt16) : Reads readUInt16 (writeUInt16 value) value := by
  intro rest
  have hlen : (writeUInt16 value).length = 2 := toLE_length _ _
  have hvalue : toUInt16 (writeUInt16 value) 0 = .ok value := by
    have hmod : value.toNat % 2 ^ 16 % 256 ^ 2 = value.toNat := by
      have hlt := value.toNat_lt
      omega
    rw [toUInt16, if_pos (by omega), List.drop_zero, List.take_of_length_le (by omega), writeUInt16,
      getBytesUInt16, fromLE_toLE, hmod, UInt16.ofNat_toNat]
  rw [readUInt16, readBytes_append (by rw [hlen]; rfl)]
  simp only [bind, Except.bind, hvalue]
  rfl

theorem reads_uint32 (value : UInt32) : Reads readUInt32 (writeUInt32 value) value := by
  intro rest
  have hlen : (writeUInt32 value).length = 4 := toLE_length _ _
  have hlt : value.toNat < 256 ^ 4 := value.toNat_lt
  have hvalue : toUInt32 (writeUInt32 value) 0 = .ok value := by
    rw [toUInt32, if_pos (by omega), List.drop_zero, List.take_of_length_le (by omega), writeUInt32,
      getBytesUInt32, fromLE_toLE, Nat.mod_eq_of_lt hlt, UInt32.ofNat_toNat]
  rw [readUInt32, readBytes_append (by rw [hlen]; rfl)]
  simp only [bind, Except.bind, hvalue]
  rfl

theorem reads_int32 {value : Int} (hlow : -2 ^ 31 ≤ value) (hhigh : value < 2 ^ 31) :
    Reads readInt32 (writeInt32 value) value := fun rest =>
  readInt32_writeInt32 hlow hhigh rest

theorem reads_bool (value : Bool) : Reads readBool (writeBool value) value := by
  intro rest
  cases value <;> rfl

theorem reads_nullableInt32 (value : Option Int32) :
    Reads readNullableInt32 (writeNullableInt32 value) (value.map Int32.toInt) := by
  cases value with
  | none => exact fun rest => rfl
  | some value =>
      intro rest
      rw [writeNullableInt32, List.append_assoc, readNullableInt32, reads_bool true]
      simp only [bind, Except.bind, if_true]
      rw [reads_int32 value.le_toInt value.toInt_lt]
      rfl

theorem writeString_eq (value : String) :
    Utils.writeString value = writeInt32 (utf8GetBytes value).length ++ utf8GetBytes value := by
  rw [utf8GetBytes_length]
  rfl

/-- The writer returns for a text whose encoding has an `int` number of bytes. -/
theorem writeString_some {value : String} (h : (utf8GetBytes value).length < 2 ^ 31) :
    writeString (some value) =
      .ok (writeInt32 (utf8GetBytes value).length ++ utf8GetBytes value) := by
  simp only [writeString, utf8GetByteCount, if_pos h, Option.isNone_some, Bool.false_eq_true,
    if_false, Written.ok_andThen_ok, List.nil_append, Option.elim_some]

/-- For no other string does it return. -/
theorem writeString_raised {value : Option String} :
    (writeString value).raised = none ↔ ∃ s, value = some s ∧ (utf8GetBytes s).length < 2 ^ 31 := by
  cases value with
  | none => simp [writeString, utf8GetByteCount, Written.raise]
  | some s =>
      by_cases h : (utf8GetBytes s).length < 2 ^ 31
      · rw [writeString_some h]
        exact ⟨fun _ => ⟨s, rfl, h⟩, fun _ => rfl⟩
      · rw [writeString, utf8GetByteCount, if_neg h]
        constructor
        · intro hraised
          cases hraised
        · rintro ⟨t, ht, hlt⟩
          exact absurd (Option.some.inj ht ▸ hlt) h

theorem reads_string {value : String} (h : (utf8GetBytes value).length < 2 ^ 31) :
    Reads readString (writeInt32 (utf8GetBytes value).length ++ utf8GetBytes value)
      (some value) := by
  intro rest
  rw [readString, List.append_assoc, reads_int32 (by omega) (by omega)]
  simp only [bind, Except.bind]
  rw [if_neg (by omega), readBytes_append rfl]
  simp only [utf8GetString_getBytes]
  rfl

theorem reads_bytesSafe {data : Option (List UInt8)} (h : ∀ bytes ∈ data, bytes.length < 2 ^ 31) :
    Reads readBytesSafe (writeBytesSafe data) data := fun rest =>
  readBytesSafe_writeBytesSafe h rest

/-- The blocks are the contents. -/
theorem copyLoop_eq (src : Source) : copyLoop src = src := by
  fun_induction copyLoop src with
  | case1 src read h ih =>
      rw [ih]
      exact List.take_append_drop 4096 src
  | case2 src read h =>
      have hnil : src = [] := by
        simp only [read, Source.read, List.length_take] at h
        exact List.length_eq_zero_iff.mp (by omega)
      simp [read, hnil, Source.read]

/-- As much as is announced is read, if it is there. -/
theorem readStreamLoop_append {dataLength currentIndex : Int} {memSink data : List UInt8}
    (h : dataLength = currentIndex + data.length) (rest : Source) :
    readStreamLoop dataLength currentIndex memSink (data ++ rest) = .ok (memSink ++ data, rest) := by
  -- by induction on what is left to be read: a full block, or all of it
  induction hn : data.length using Nat.strong_induction_on generalizing currentIndex memSink data with
  | _ n ih =>
      have hblock : (min 4096 (dataLength - currentIndex)).toNat = min 4096 n := by omega
      have hread : Source.read (data ++ rest) (min 4096 n) =
          (data.take (min 4096 n), data.drop (min 4096 n) ++ rest) := by
        rw [Source.read, List.take_append_of_le_length (by omega),
          List.drop_append_of_le_length (by omega)]
      have htaken : (data.take (min 4096 n)).length = min 4096 n := by
        rw [List.length_take]
        omega
      rw [readStreamLoop, if_neg (by omega)]
      simp only [hblock, hread, htaken]
      split
      · have hleft : (data.drop (min 4096 n)).length = n - min 4096 n := by
          rw [List.length_drop, hn]
        rw [ih _ (by omega) (by omega) hleft, List.append_assoc, List.take_append_drop]
      · have hall : data.length ≤ min 4096 n := by omega
        rw [List.take_of_length_le hall, List.drop_eq_nil_of_le hall, List.nil_append]

/-- No more is read than announced. -/
theorem readStreamLoop_length {dataLength currentIndex : Int} {memSink contents : List UInt8}
    {src rest : Source} (hstart : (memSink.length : Int) = currentIndex)
    (h : readStreamLoop dataLength currentIndex memSink src = .ok (contents, rest)) :
    (contents.length : Int) ≤ dataLength := by
  fun_induction readStreamLoop dataLength currentIndex memSink src with
  | case1 currentIndex memSink src toRead hneg => cases h
  | case2 currentIndex memSink src toRead hneg read reached hmore ih =>
      refine ih ?_ h
      simp only [reached, List.length_append]
      omega
  | case3 currentIndex memSink src toRead hneg read reached hmore =>
      cases h
      have hread : read.1.length ≤ toRead.toNat := by
        simp only [read, Source.read, List.length_take]
        omega
      rw [List.length_append]
      omega

/-- A stream is read back, its position being behind its contents. -/
theorem reads_stream {data : List UInt8} (h : data.length < 2 ^ 31) :
    Reads readStream (writeStream data) ⟨data, data.length⟩ := by
  have hcast : castInt32 data.length = data.length := castInt32_of_int (by omega) (by omega)
  intro rest
  rw [writeStream, copyLoop_eq, hcast, readStream, List.append_assoc,
    reads_int32 (by omega) (by omega)]
  simp only [bind, Except.bind]
  rw [readStreamLoop_append (by omega)]
  rfl

/-- A number that is read is an `int`. -/
theorem readInt32_lt {src rest : Source} {value : Int} (h : readInt32 src = .ok (value, rest)) :
    value < 2 ^ 31 := by
  obtain ⟨p, -, h⟩ := bind_ok.mp h
  have hvalue : toInt32 p.1 0 = .ok value := by
    obtain ⟨v, hv, heq⟩ := bind_ok.mp h
    cases heq
    exact hv
  unfold toInt32 at hvalue
  split at hvalue
  · rw [← Except.ok.inj hvalue, Int.bmod_def]
    split <;> omega
  · cases hvalue

/-- What is read has fewer than 2^31 bytes, whatever has been written. -/
theorem readStream_length {src rest : Source} {stream : MemoryStream}
    (h : readStream src = .ok (stream, rest)) : stream.contents.length < 2 ^ 31 := by
  obtain ⟨⟨dataLength, src'⟩, hlength, h⟩ := bind_ok.mp h
  obtain ⟨⟨contents, rest'⟩, hcontents, h⟩ := bind_ok.mp h
  cases h
  have hstart : (([] : List UInt8).length : Int) = 0 := rfl
  have hle := readStreamLoop_length hstart hcontents
  have hbound := readInt32_lt hlength
  show contents.length < 2 ^ 31
  omega

end InMemoryFuzzing.Utils.StreamHelper

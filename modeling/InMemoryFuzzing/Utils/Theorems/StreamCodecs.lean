import InMemoryFuzzing.Utils.StreamCodecs

/-!
# Values on one stream

A sequence of writes, each by its own codec, and the corresponding sequence of reads.

* `Op.reads` — each value that its codec can represent is read back by itself;
* `storable_of_read` — each that is read back can be represented: null is no string that
  `WriteString` can write, and the length of a stream is written as an `int`;
* `codecs_round_trip_iff` — so a whole sequence is read back if and only if each of its values
  can be represented.
-/

namespace InMemoryFuzzing.Utils.StreamHelper

open Base Platform DotNet

/-- `byte[]`: no array has 2^31 elements. -/
abbrev NetBytes := {bytes : List UInt8 // bytes.length < 2 ^ 31}

/-- A write: the codec, and what is written. Of a stream that is what is left to be read. -/
inductive Op
  | bool (value : Bool)
  | uint16 (value : UInt16)
  | int32 (value : Int32)
  | uint32 (value : UInt32)
  | int64 (value : Int64)
  | uint64 (value : UInt64)
  | nullableInt32 (value : Option Int32)
  | string (value : Option String)
  | bytesSafe (data : Option NetBytes)
  | stream (remaining : List UInt8)

/-- What a reader returns. Of a stream these are the contents. -/
inductive Value
  | bool (value : Bool)
  | uint16 (value : UInt16)
  | int32 (value : Int)
  | uint32 (value : UInt32)
  | int64 (value : Int64)
  | uint64 (value : UInt64)
  | nullableInt32 (value : Option Int)
  | string (value : Option String)
  | bytesSafe (data : Option (List UInt8))
  | stream (contents : List UInt8)
  deriving DecidableEq, Repr

/-- A codec. -/
inductive Kind
  | bool
  | uint16
  | int32
  | uint32
  | int64
  | uint64
  | nullableInt32
  | string
  | bytesSafe
  | stream
  deriving DecidableEq, Repr

def Op.kind : Op → Kind
  | .bool _ => .bool
  | .uint16 _ => .uint16
  | .int32 _ => .int32
  | .uint32 _ => .uint32
  | .int64 _ => .int64
  | .uint64 _ => .uint64
  | .nullableInt32 _ => .nullableInt32
  | .string _ => .string
  | .bytesSafe _ => .bytesSafe
  | .stream _ => .stream

def Op.value : Op → Value
  | .bool value => .bool value
  | .uint16 value => .uint16 value
  | .int32 value => .int32 value.toInt
  | .uint32 value => .uint32 value
  | .int64 value => .int64 value
  | .uint64 value => .uint64 value
  | .nullableInt32 value => .nullableInt32 (value.map Int32.toInt)
  | .string value => .string value
  | .bytesSafe data => .bytesSafe (data.map Subtype.val)
  | .stream remaining => .stream remaining

def Op.write : Op → Write
  | .bool value => .ok (writeBool value)
  | .uint16 value => .ok (writeUInt16 value)
  | .int32 value => .ok (writeInt32 value.toInt)
  | .uint32 value => .ok (writeUInt32 value)
  | .int64 value => .ok (writeInt64 value)
  | .uint64 value => .ok (writeUInt64 value)
  | .nullableInt32 value => .ok (writeNullableInt32 value)
  | .string value => writeString value
  | .bytesSafe data => .ok (writeBytesSafe (data.map Subtype.val))
  | .stream remaining => .ok (writeStream remaining)

def Kind.read : Kind → Reader NetException UInt8 Value
  | .bool => mapRead Value.bool readBool
  | .uint16 => mapRead Value.uint16 readUInt16
  | .int32 => mapRead Value.int32 readInt32
  | .uint32 => mapRead Value.uint32 readUInt32
  | .int64 => mapRead Value.int64 readInt64
  | .uint64 => mapRead Value.uint64 readUInt64
  | .nullableInt32 => mapRead Value.nullableInt32 readNullableInt32
  | .string => mapRead Value.string readString
  | .bytesSafe => mapRead Value.bytesSafe readBytesSafe
  | .stream => mapRead (fun s => Value.stream s.contents) readStream

/-- No write raises, and the reads return the same values and leave nothing. -/
def RoundTrips (ops : List Op) : Prop :=
  (Written.each Op.write ops).raised = none ∧
    readEach Kind.read (ops.map Op.kind) (Written.each Op.write ops).items =
      .ok (ops.map Op.value, [])

/-- The codec can represent the value. -/
def Op.Storable : Op → Prop
  | .string value => ∃ s, value = some s ∧ (utf8GetBytes s).length < 2 ^ 31
  | .stream remaining => remaining.length < 2 ^ 31
  | _ => True

/-! ## One value -/

theorem Op.write_raised {op : Op} (h : op.Storable) : op.write.raised = none := by
  cases op with
  | string value => exact writeString_raised.mpr h
  | _ => rfl

theorem Op.reads {op : Op} (h : op.Storable) : Reads op.kind.read op.write.items op.value := by
  cases op with
  | bool value => exact (reads_bool value).map _
  | uint16 value => exact (reads_uint16 value).map _
  | int32 value => exact (reads_int32 value.le_toInt value.toInt_lt).map _
  | uint32 value => exact (reads_uint32 value).map _
  | int64 value =>
      have hint : Reads readInt64 (writeInt64 value) value := readInt64_writeInt64 value
      exact hint.map _
  | uint64 value =>
      have hint : Reads readUInt64 (writeUInt64 value) value := readUInt64_writeUInt64 value
      exact hint.map _
  | nullableInt32 value => exact (reads_nullableInt32 value).map _
  | string value =>
      obtain ⟨s, rfl, hsize⟩ := h
      show Reads (mapRead Value.string readString) (writeString (some s)).items _
      rw [writeString_some hsize]
      exact (reads_string hsize).map _
  | bytesSafe data =>
      refine (reads_bytesSafe ?_).map _
      intro bytes hbytes
      obtain ⟨array, -, rfl⟩ := Option.mem_map.mp hbytes
      exact array.2
  | stream remaining => exact (reads_stream h).map fun s => Value.stream s.contents

/-- What can be read back can be represented. -/
theorem storable_of_read {op : Op} {src rest : Source} (hwrite : op.write.raised = none)
    (hread : op.kind.read src = .ok (op.value, rest)) : op.Storable := by
  cases op with
  | string value => exact writeString_raised.mp hwrite
  | stream remaining =>
      obtain ⟨p, hp, heq⟩ := bind_ok.mp hread
      have hcontents : p.1.contents = remaining :=
        Value.stream.inj (congrArg Prod.fst (Except.ok.inj heq))
      show remaining.length < 2 ^ 31
      rw [← hcontents]
      exact readStream_length hp
  | _ => trivial

/-! ## A sequence -/

/-- **What is written is read back.** A sequence of values is written without an exception, and
read back in order to the last byte, if and only if no string among them is null or has an
encoding of 2^31 bytes or more, and no stream has that many bytes left. -/
theorem codecs_round_trip_iff (ops : List Op) : RoundTrips ops ↔ ∀ op ∈ ops, op.Storable := by
  constructor
  · rintro ⟨hraised, hread⟩
    rw [Written.each_raised] at hraised
    rw [Written.each_items hraised] at hread
    induction ops with
    | nil => simp
    | cons op ops ih =>
        rw [List.forall_mem_cons] at hraised
        rw [List.map_cons, List.map_cons, List.flatMap_cons] at hread
        obtain ⟨⟨v, src⟩, hv, hread⟩ := bind_ok.mp hread
        obtain ⟨⟨vs, rest⟩, hvs, heq⟩ := bind_ok.mp hread
        obtain ⟨⟨rfl, rfl⟩, rfl⟩ : (v = op.value ∧ vs = ops.map Op.value) ∧ rest = [] := by
          simpa [Pure.pure, Except.pure] using heq
        have hop := storable_of_read hraised.1 hv
        -- so the reader has left what the later writers have written
        rw [Op.reads hop] at hv
        obtain rfl : ops.flatMap (fun x => x.write.items) = src := by simpa using hv
        exact List.forall_mem_cons.mpr ⟨hop, ih hraised.2 hvs⟩
  · intro h
    have hraised : ∀ op ∈ ops, op.write.raised = none := fun op hop => Op.write_raised (h op hop)
    refine ⟨Written.each_raised.mpr hraised, ?_⟩
    rw [Written.each_items hraised]
    have hreads := Reads.each (fun op hop => Op.reads (h op hop)) []
    rwa [List.append_nil] at hreads

/-- A null string cannot be written: `WriteString` goes on behind the length of null. -/
theorem null_not_written : ¬ RoundTrips [Op.string none] := by
  rintro ⟨hraised, -⟩
  cases hraised

end InMemoryFuzzing.Utils.StreamHelper

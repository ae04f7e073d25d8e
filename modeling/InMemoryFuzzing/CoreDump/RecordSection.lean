import InMemoryFuzzing.Platform.Stream
import InMemoryFuzzing.Utils.ByteHelper

/-!
# `GDBProcessRecordSection.Read`

The section of a core dump in which gdb saves its execution log: a magic number,
then register, memory and end entries, all integers big-endian. `Read` collects
the entries up to an end entry into one `InstructionDescription`.

The state of the loop is explicit: the stream, the buffer of 100 bytes that all
short reads share, the pending instruction and the instructions so far.
-/

namespace InMemoryFuzzing.CoreDump

open Base Platform DotNet Utils

/-! ## Registers and instructions -/

/-- A register of the target. -/
structure Register where
  num : UInt32
  name : String
  size : UInt32
  deriving DecidableEq, Repr

/-- `Registers`, in the order in which they were added. -/
abbrev Registers := List Register

/-- `FindRegisterByNum`: the first register with the number. -/
def findRegisterByNum (registers : Registers) (num : UInt32) : Option Register :=
  registers.find? fun reg => reg.num = num

structure RegisterChange where
  regnum : UInt32
  value : List UInt8
  deriving DecidableEq, Repr

structure MemoryChange where
  address : UInt64
  value : List UInt8
  deriving DecidableEq, Repr

structure InstructionDescription where
  signal : Int32 := 0
  instructionCount : Int32 := 0
  registerChanges : List RegisterChange := []
  memoryChanges : List MemoryChange := []
  deriving DecidableEq

/-- `AddRegChange`. -/
def InstructionDescription.addRegChange (i : InstructionDescription) (c : RegisterChange) :
    InstructionDescription :=
  { i with registerChanges := i.registerChanges ++ [c] }

/-- `AddMemChange`. -/
def InstructionDescription.addMemChange (i : InstructionDescription) (c : MemoryChange) :
    InstructionDescription :=
  { i with memoryChanges := i.memoryChanges ++ [c] }

/-! ## Reading -/

/-- `ThrowEndOfStreamException`. -/
def endOfStreamException : NetException := .argument "Unexpected end of stream"

/-- `ReadWithException`: the buffer after the read, and the stream behind it. A
length of 2^31 or more is a negative count for `Stream.Read`. -/
def readWithException (src : Source) (buffer : List UInt8) (offset : Nat) (length : UInt32) :
    Except NetException (List UInt8 × Source) :=
  if 2 ^ 31 ≤ length.toNat ∨ buffer.length < offset + length.toNat then .error .outOfRange
  else
    let read := src.read length.toNat
    if read.1.length ≠ length.toNat then .error endOfStreamException
    else .ok (buffer.take offset ++ read.1 ++ buffer.drop (offset + length.toNat), read.2)

/-- `new byte[length]`: no array has 2^31 elements. -/
def newByteArray (length : UInt32) : Except NetException (List UInt8) :=
  if 2 ^ 31 ≤ length.toNat then .error .overflow else .ok (List.replicate length.toNat 0)

/-- The variables of `Read` inside its loop. -/
structure ReadState where
  src : Source
  buffer : List UInt8
  pendingInstruction : Option InstructionDescription
  instructions : List InstructionDescription

/-- The cast of a `UInt64` to `int`. -/
def castInt (value : UInt64) : Int32 := value.toUInt32.toInt32

/-- `RecordEnd`. -/
def readEnd (pending : InstructionDescription) (st : ReadState) :
    Except NetException ReadState := do
  let (buffer, src) ← readWithException st.src st.buffer 0 8
  let signal ← byteArrayToUInt64 buffer 0 4 false
  let count ← byteArrayToUInt64 buffer 4 4 false
  let ended := { pending with signal := castInt signal, instructionCount := castInt count }
  return ⟨src, buffer, none, st.instructions ++ [ended]⟩

/-- `RecordMem`. -/
def readMem (pending : InstructionDescription) (st : ReadState) :
    Except NetException ReadState := do
  let (buffer, src) ← readWithException st.src st.buffer 0 4
  let dataLen ← byteArrayToUInt64 buffer 0 4 false
  let (buffer, src) ← readWithException src buffer 0 8
  let address ← byteArrayToUInt64 buffer 0 8 false
  let value ← newByteArray dataLen.toUInt32
  let (value, src) ← readWithException src value 0 dataLen.toUInt32
  return ⟨src, buffer, some (pending.addMemChange ⟨address, value⟩), st.instructions⟩

/-- `RecordReg`. -/
def readReg (registers : Registers) (pending : InstructionDescription) (st : ReadState) :
    Except NetException ReadState := do
  let (buffer, src) ← readWithException st.src st.buffer 0 4
  let regnum ← byteArrayToUInt64 buffer 0 4 false
  match findRegisterByNum registers regnum.toUInt32 with
  | none =>
      throw (.argument ("CoreDump contains informations about not available register with number '"
        ++ toString regnum.toUInt32 ++ "', cannot continue because size is unknown"))
  | some currentReg =>
      let value ← newByteArray currentReg.size
      let (value, src) ← readWithException src value 0 currentReg.size
      return ⟨src, buffer, some (pending.addRegChange ⟨regnum.toUInt32, value⟩), st.instructions⟩

/-- One pass through the loop, behind `ReadByte`: the `switch`. An unknown record
type falls through it. -/
def readEntry (registers : Registers) (recType : UInt8) (st : ReadState) :
    Except NetException ReadState :=
  let pending := st.pendingInstruction.getD {}
  if recType = 0 then readEnd pending st
  else if recType = 2 then readMem pending st
  else if recType = 1 then readReg registers pending st
  else .ok { st with pendingInstruction := some pending }

/-- `readWithException` at the start of a buffer that has room. -/
theorem readWithException_eq {src : Source} {buffer : List UInt8} {length : UInt32}
    (hsmall : length.toNat < 2 ^ 31) (hroom : length.toNat ≤ buffer.length) :
    readWithException src buffer 0 length =
      if src.length < length.toNat then .error endOfStreamException
      else .ok (src.take length.toNat ++ buffer.drop length.toNat, src.drop length.toNat) := by
  have hlen : (src.take length.toNat).length ≠ length.toNat ↔ src.length < length.toNat := by
    rw [List.length_take]
    omega
  rw [readWithException, if_neg (by omega)]
  simp only [Source.read, hlen, List.take_zero, List.nil_append, Nat.zero_add]

/-- A read that returns has consumed what it was asked for. -/
theorem readWithException_ok {src rest : Source} {buffer buffer' : List UInt8} {length : UInt32}
    (h : readWithException src buffer 0 length = .ok (buffer', rest)) :
    length.toNat < 2 ^ 31 ∧ length.toNat ≤ src.length ∧
      buffer' = src.take length.toNat ++ buffer.drop length.toNat ∧
      rest = src.drop length.toNat := by
  by_cases hguard : 2 ^ 31 ≤ length.toNat ∨ buffer.length < 0 + length.toNat
  · rw [readWithException, if_pos hguard] at h
    cases h
  · rw [readWithException_eq (by omega) (by omega)] at h
    split at h
    · cases h
    · cases h
      exact ⟨by omega, by omega, rfl, rfl⟩

theorem readWithException_length {src rest : Source} {buffer buffer' : List UInt8}
    {length : UInt32} (h : readWithException src buffer 0 length = .ok (buffer', rest)) :
    rest.length ≤ src.length := by
  rw [(readWithException_ok h).2.2.2, List.length_drop]
  omega

/-- No entry gives bytes back to the stream. -/
theorem readEntry_length {registers : Registers} {recType : UInt8} {st st' : ReadState}
    (h : readEntry registers recType st = .ok st') : st'.src.length ≤ st.src.length := by
  simp only [readEntry] at h
  split at h
  · simp only [readEnd, bind_ok] at h
    obtain ⟨⟨buffer, src⟩, hread, _, _, _, _, heq⟩ := h
    cases heq
    exact readWithException_length hread
  · split at h
    · simp only [readMem, bind_ok] at h
      obtain ⟨⟨buffer, src⟩, hlen, _, _, ⟨buffer', src'⟩, haddr, _, _, _, _, ⟨value, src''⟩, hvalue,
        heq⟩ := h
      cases heq
      have h₁ := readWithException_length hlen
      have h₂ := readWithException_length haddr
      have h₃ := readWithException_length hvalue
      exact h₃.trans (h₂.trans h₁)
    · split at h
      · simp only [readReg, bind_ok] at h
        obtain ⟨⟨buffer, src⟩, hnum, regnum, _, h⟩ := h
        split at h
        · cases h
        · simp only [bind_ok] at h
          obtain ⟨_, _, ⟨value, src'⟩, hvalue, heq⟩ := h
          cases heq
          exact (readWithException_length hvalue).trans (readWithException_length hnum)
      · cases h
        exact Nat.le_refl _

/-! ## The loop -/

/-- The `while` loop, until `Position` is `Length`. -/
def readEntries (registers : Registers) (st : ReadState) : Except NetException ReadState :=
  match _hsrc : st.src with
  | [] => .ok st
  | recType :: src =>
      match _hentry : readEntry registers recType { st with src } with
      | .error raised => .error raised
      | .ok st' => readEntries registers st'
termination_by st.src.length
decreasing_by
  have := readEntry_length _hentry
  rw [_hsrc, List.length_cons]
  exact Nat.lt_succ_of_le this

/-- `RECORD_FILE_MAGIC`. -/
def recordFileMagic : Int32 := 0x20091016

/-- `GDBProcessRecordSection.Read`. -/
def readSection (registers : Registers) (src : Source) :
    Except NetException (List InstructionDescription) :=
  let magicNumber := src.read 4
  if magicNumber.1.length ≠ 4 then .error endOfStreamException
  else
    match byteArrayToUInt64 magicNumber.1 0 4 false with
    | .error raised => .error raised
    | .ok myMagicNumber =>
        if castInt myMagicNumber ≠ recordFileMagic then
          .error (.argument "Magic numbers do not match")
        else
          match readEntries registers ⟨magicNumber.2, List.replicate 100 0, some {}, []⟩ with
          | .error raised => .error raised
          -- a pending instruction whose end record is missing
          | .ok st => .ok (st.instructions ++ st.pendingInstruction.toList)

end InMemoryFuzzing.CoreDump

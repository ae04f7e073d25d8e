import InMemoryFuzzing.Base.Fifo
import InMemoryFuzzing.Base.TSys
import InMemoryFuzzing.Platform.Arrays
import InMemoryFuzzing.Platform.Utf8

/-!
# `OneTimeStream`

Bytes are written into chunks at the end of a list of buffers, and read from the first one;
buffers that have been read are removed. A `Read` that finds nothing waits for an event that
every `Write` sets, and does not look again when it goes on.

The positions are `int` variables and are kept as integers; no bound is known beforehand.
-/

namespace InMemoryFuzzing.Utils

open Base Platform DotNet

/-- `_bufferSize`. -/
def bufferSize : Nat := 4096

structure OneTimeStream where
  buffers : List (List UInt8)
  readPosition : Int
  readIndex : Nat
  writePosition : Int
  evt : Bool

/-- The arguments of `Read`; there is room for what is asked for. -/
structure ReadCall where
  buffer : List UInt8
  offset : Nat
  count : Nat
  room : offset + count ≤ buffer.length
  positive : 1 ≤ count

/-- What `Read` returns, and the caller's buffer then. -/
structure ReadResult where
  call : ReadCall
  buffer : List UInt8
  value : Int

/-- The bytes that a caller takes for read. -/
def ReadResult.bytes (r : ReadResult) : List UInt8 := (r.buffer.drop r.call.offset).take r.value.toNat

/-- The arguments of `Write`. -/
structure WriteCall where
  buffer : List UInt8
  offset : Nat
  count : Nat
  room : offset + count ≤ buffer.length

/-- The bytes that are to be written. -/
def WriteCall.bytes (call : WriteCall) : List UInt8 := (call.buffer.drop call.offset).take call.count

/-- Why a call does not return: it raises, or its loop does not end. -/
inductive Fault
  | raised (e : NetException)
  | endless
  deriving DecidableEq, Repr

namespace OneTimeStream

/-- The constructor. -/
def start : OneTimeStream := ⟨[], 0, 0, 0, false⟩

/-! ## `Read` -/

/-- The condition under which `Read` waits. -/
def MustWait (s : OneTimeStream) : Prop :=
  s.buffers.length = 0 ∨ (s.readIndex + 1 = s.buffers.length ∧ s.readPosition ≥ s.writePosition)

instance (s : OneTimeStream) : Decidable s.MustWait := inferInstanceAs (Decidable (_ ∨ _))

/-- The variables of the loop in `Read`. -/
structure ReadLoop where
  readIndex : Nat
  readPosition : Int
  read : Int
  buffer : List UInt8

/-- The first `if` of the loop: behind the end of a buffer comes the next one. -/
def advance (s : OneTimeStream) (l : ReadLoop) : Except NetException ReadLoop := do
  let current ← elementAt s.buffers l.readIndex
  return if l.readPosition ≥ current.length then { l with readIndex := l.readIndex + 1, readPosition := 0 }
    else l

/-- The rest of a pass: what has been copied, and whether `Read` returns from here. The bytes of
the whole buffer are copied, those that have been written are counted. -/
def copyOut (s : OneTimeStream) (call : ReadCall) (l : ReadLoop) : Except NetException (Bool × ReadLoop) :=
  if l.readIndex < s.buffers.length then do
    let current ← elementAt s.buffers l.readIndex
    let buffer ← arrayCopy current l.readPosition l.buffer (call.offset + l.read)
      (min (call.count - l.read) (current.length - l.readPosition))
    let currentBufferLength : Int :=
      if l.readIndex + 1 = s.buffers.length then s.writePosition else current.length
    let currentread := min (call.count - l.read) (currentBufferLength - l.readPosition)
    let readPosition := l.readPosition + currentread
    return (decide (l.readIndex + 1 = s.buffers.length ∧ readPosition = s.writePosition),
      ⟨l.readIndex, readPosition, l.read + currentread, buffer⟩)
  else return (true, l)

/-- The loop of `Read`. -/
def readLoop (s : OneTimeStream) (call : ReadCall) : Nat → ReadLoop → Except Fault ReadLoop
  | 0, _ => .error .endless
  | fuel + 1, l =>
      match advance s l >>= copyOut s call with
      | .error e => .error (.raised e)
      | .ok (returned, l) =>
          if returned = false ∧ l.read < call.count ∧ l.readIndex < s.buffers.length then
            readLoop s call fuel l
          else .ok l

/-- The `finally` block: the buffers in front of the index are removed. -/
def deleteBuffers (s : OneTimeStream) (l : ReadLoop) : Except NetException OneTimeStream :=
  if l.readIndex > 0 then
    (removeRange s.buffers l.readIndex).map fun buffers =>
      { s with buffers := buffers, readIndex := 0, readPosition := l.readPosition }
  else .ok { s with readIndex := l.readIndex, readPosition := l.readPosition }

/-- `Read` behind the waiting. Every pass but the last one reads a byte. -/
def readBytes (s : OneTimeStream) (call : ReadCall) : Except Fault (ReadResult × OneTimeStream) := do
  let l ← readLoop s call (call.count + 1) ⟨s.readIndex, s.readPosition, 0, call.buffer⟩
  match deleteBuffers s l with
  | .error e => throw (.raised e)
  | .ok s => return (⟨call, l.buffer, l.read⟩, s)

/-! ## `Write` -/

/-- The variables of the loop in `Write`. -/
structure WriteLoop where
  buffers : List (List UInt8)
  writePosition : Int
  written : Int

/-- `CreateNewBuffer`. -/
def createNewBuffer (buffers : List (List UInt8)) : List (List UInt8) :=
  buffers ++ [List.replicate bufferSize 0]

/-- The `if` of the loop: the position is compared with the length of the first buffer. -/
def openBuffer (l : WriteLoop) : WriteLoop :=
  match l.buffers with
  | [] => { l with buffers := createNewBuffer l.buffers, writePosition := 0 }
  | first :: _ =>
      if l.writePosition ≥ first.length then
        { l with buffers := createNewBuffer l.buffers, writePosition := 0 }
      else l

/-- The rest of a pass. -/
def copyIn (call : WriteCall) (l : WriteLoop) : Except NetException WriteLoop := do
  let last ← elementAt l.buffers (l.buffers.length - 1)
  let currentwritten := min (call.count - l.written) (last.length - l.writePosition)
  let buffer ← arrayCopy call.buffer (call.offset + l.written) last l.writePosition currentwritten
  return ⟨l.buffers.set (l.buffers.length - 1) buffer, l.writePosition + currentwritten,
    l.written + currentwritten⟩

/-- The loop of `Write`. -/
def writeLoop (call : WriteCall) : Nat → WriteLoop → Except Fault WriteLoop
  | 0, _ => .error .endless
  | fuel + 1, l =>
      match copyIn call (openBuffer l) with
      | .error e => .error (.raised e)
      | .ok l => if l.written < call.count then writeLoop call fuel l else .ok l

/-- `Write`. -/
def write (s : OneTimeStream) (call : WriteCall) : Except Fault OneTimeStream :=
  (writeLoop call (call.count + 1) ⟨s.buffers, s.writePosition, 0⟩).map fun l =>
    { s with buffers := l.buffers, writePosition := l.writePosition, evt := true }

end OneTimeStream

/-- What a thread of `MultiTextReader` writes of the characters it has read; at the end of its
reader there are none. -/
def readThreadWrite (chars : List Char) : WriteCall :=
  let data := utf8GetBytes (String.ofList chars)
  ⟨data, 0, data.length, by simp⟩

/-! ## A stream with its reader and its writers -/

/-- Where the thread is that reads. -/
inductive StreamReader
  | idle
  /-- In `WaitOne`. -/
  | waiting (call : ReadCall)
  /-- Behind `WaitOne`, in front of `Monitor.Enter`. -/
  | woken (call : ReadCall)

/-- The stream, its reader, and what has been written and returned so far. -/
structure Traffic where
  stream : OneTimeStream
  reader : StreamReader
  written : List UInt8
  returned : List ReadResult
  fault : Option Fault

/-- The threads hold the lock, except where a reader waits. -/
inductive TrafficAction
  | write (call : WriteCall)
  | read (call : ReadCall)
  | wake
  | resume

namespace Traffic

def start : Traffic := ⟨.start, .idle, [], [], none⟩

/-- The reader reads and returns. -/
def finishRead (t : Traffic) (call : ReadCall) : Traffic :=
  match t.stream.readBytes call with
  | .error fault => { t with fault := some fault }
  | .ok (result, stream) =>
      { t with stream := stream, reader := .idle, returned := t.returned ++ [result] }

/-- A writer writes. -/
def write (t : Traffic) (call : WriteCall) : Traffic :=
  match t.stream.write call with
  | .error fault => { t with fault := some fault }
  | .ok stream => { t with stream := stream, written := t.written ++ call.bytes }

def step (t : Traffic) : TrafficAction → Option Traffic
  | .write call => some (t.write call)
  | .read call =>
      match t.reader with
      | .idle =>
          if t.stream.MustWait then
            some { t with stream := { t.stream with evt := false }, reader := .waiting call }
          else some (t.finishRead call)
      | _ => none
  | .wake =>
      match t.reader, t.stream.evt with
      | .waiting call, true =>
          some { t with stream := { t.stream with evt := false }, reader := .woken call }
      | _, _ => none
  | .resume =>
      match t.reader with
      | .woken call => some (t.finishRead call)
      | _ => none

end Traffic

/-- Writes of any length, and reads one after the other, in any order. -/
def trafficSystem : TSys Traffic TrafficAction where
  init t := t = .start
  step := Traffic.step

end InMemoryFuzzing.Utils

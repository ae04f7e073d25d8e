import InMemoryFuzzing.Base.Memory
import InMemoryFuzzing.Base.Traced
import InMemoryFuzzing.Platform.CLib

/-!
# The PROC handler of the server

`handler_proc` writes the process table into a buffer of 9000 bytes on its stack
and sends it. The buffer is a flat memory: a store behind the 9000 bytes is a
store all the same, and the events tell where each one went. The arithmetic is
that of `int`, whose overflow is undefined.
-/

namespace InMemoryFuzzing.RemoteControl

open Base Platform
open Traced (emit undefined)

/-- A process as `readproc` returns it: the first string of its command line, if
it has one, and its id. -/
structure Proc where
  cmdline : Option (List UInt8)
  tid : Int
  /-- The command line is a C string. -/
  cmdline_ne_zero : ∀ s ∈ cmdline, ∀ b ∈ s, b ≠ 0
  tid_int32 : -2 ^ 31 ≤ tid ∧ tid < 2 ^ 31

/-- What a run of the handler does. -/
inductive ProcEvent
  /-- Writes `output_buffer[index]`. -/
  | write (index : Nat)
  /-- `send_packet (receiver, data, dataLength)`; `data` is what the buffer holds. -/
  | send (receiver data : List UInt8) (dataLength : Int)
  deriving DecidableEq, Repr

/-- The local variables of the handler. -/
structure ProcState where
  outputBuffer : Memory UInt8
  currentBufferOffset : Nat
  procCounter : Nat

/-- Store bytes from `output_buffer[offset]` on. -/
def storeAt (buffer : Memory UInt8) (offset : Nat) (bytes : List UInt8) :
    Traced ProcEvent (Memory UInt8) := do
  emit ((List.range' offset bytes.length).map .write)
  return buffer.store offset bytes

/-- `offset += amount`. -/
def advance (offset : Nat) (amount : Int) : Traced ProcEvent Nat :=
  if offset + amount < 2 ^ 31 then return (offset + amount).toNat else undefined

/-- What `write_string` returns, and the buffer behind it. -/
structure StringWritten where
  result : Int
  buffer : Memory UInt8

/-- `write_string (&output_buffer[offset], 9000 - offset, text, length)`. -/
def writeStringAt (buffer : Memory UInt8) (offset : Nat) (text : List UInt8) (length : Int) :
    Traced ProcEvent StringWritten :=
  match CLib.writeString (9000 - offset) text length with
  | none => undefined
  | some (result, bytes) => do
      let buffer ← storeAt buffer offset bytes
      return ⟨result, buffer⟩

/-- `local_buffer = malloc (5+cmd_len)` with `cmd=%s` printed into it. -/
def cmdBuffer (cmdline : List UInt8) (cmdLen : Int) : Traced ProcEvent (List UInt8) :=
  -- below 1 the terminator is stored in front of the block, or the block is refused
  if 5 + cmdLen ≤ 0 ∨ 2 ^ 31 ≤ 5 + cmdLen then undefined
  else return (CLib.textBytes "cmd=".toList ++ cmdline).take (4 + cmdLen).toNat ++ [0]

/-- `pid=%d`. -/
def pidText (tid : Int) : List UInt8 := CLib.textBytes ("pid=".toList ++ CLib.formatD tid)

/-- The body of the `while` loop. -/
def handlerProcStep (st : ProcState) (procInfo : Proc) : Traced ProcEvent ProcState :=
  match procInfo.cmdline with
  | none => return st
  | some cmdline => do
      let outputBuffer ← storeAt st.outputBuffer st.currentBufferOffset (CLib.writeInt16T 2)
      let offset ← advance st.currentBufferOffset 2
      let cmdLen := CLib.int32 (CLib.strlen cmdline)
      let localBuffer ← cmdBuffer cmdline cmdLen
      let cmd ← writeStringAt outputBuffer offset localBuffer (CLib.int16 (4 + cmdLen))
      -- whatever `write_string` did
      let offset ← advance offset (4 + cmdLen + 2)
      let pid ← writeStringAt cmd.buffer offset (pidText procInfo.tid ++ [0])
        (CLib.int16 (pidText procInfo.tid).length)
      let offset ← advance offset (pid.result + 2)
      let procCounter ← advance st.procCounter 1
      return ⟨pid.buffer, offset, procCounter⟩

/-- The `while` loop. -/
def handlerProcLoop (st : ProcState) : List Proc → Traced ProcEvent ProcState
  | [] => return st
  | procInfo :: rest => do
      let st ← handlerProcStep st procInfo
      handlerProcLoop st rest

/-- The receiver `RPRC`. -/
def rprc : List UInt8 := [0x52, 0x50, 0x52, 0x43]

/-- `handler_proc`, for the processes `readproc` returns one after the other;
`fresh` is what the stack holds before. -/
def handlerProc (fresh : Memory UInt8) (table : List Proc) : Traced ProcEvent Unit := do
  let st ← handlerProcLoop ⟨fresh, 4, 0⟩ table
  let outputBuffer ← storeAt st.outputBuffer 0 (CLib.writeInt32T st.procCounter)
  emit [.send rprc (outputBuffer.load 0 st.currentBufferOffset) (CLib.int16 st.currentBufferOffset)]

end InMemoryFuzzing.RemoteControl

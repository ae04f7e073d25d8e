import InMemoryFuzzing.Platform.DotNet

/-!
# The client's side of PROC

`HandlerRemoteProcesses` and the constructor of `RemoteProcessInfo`, which walk
over the payload of a RPRC packet with a running offset.
-/

namespace InMemoryFuzzing.RemoteControl

open Base Platform

/-- `RemoteProcessInfo`; the command is null until a `cmd` value is found. -/
structure RemoteProcessInfo where
  command : Option String
  pid : Int
  deriving DecidableEq, Repr

/-- One `key=value` text; what has no `=` and what has another key is ignored. -/
def RemoteProcessInfo.setValue (info : RemoteProcessInfo) (value : String) : RemoteProcessInfo :=
  match cutAt '=' value.toList with
  | none => info
  | some (key, rest) =>
      if key = "cmd".toList then { info with command := some (String.ofList rest) }
      -- a text that is no number leaves 0 behind
      else if key = "pid".toList then { info with pid := (DotNet.intTryParse rest).getD 0 }
      else info

/-- The loop over the values of a process: the process, and the offset behind it. -/
def readValues (data : List UInt8) :
    Nat → Nat → RemoteProcessInfo → Except DotNet.NetException (RemoteProcessInfo × Nat)
  | 0, currentOffset, info => .ok (info, currentOffset)
  | n + 1, currentOffset, info => do
      let length ← DotNet.toInt16 data currentOffset
      let value ← DotNet.asciiGetStringAt data (currentOffset + 2) length
      readValues data n (currentOffset + 2 + length.toNat) (info.setValue value)

/-- `new RemoteProcessInfo (data, ref currentOffset)`. -/
def remoteProcessInfo (data : List UInt8) (currentOffset : Nat) :
    Except DotNet.NetException (RemoteProcessInfo × Nat) := do
  let valueCount ← DotNet.toInt16 data currentOffset
  readValues data valueCount.toNat (currentOffset + 2) ⟨none, 0⟩

/-- The loop over the processes. -/
def readProcesses (data : List UInt8) :
    Nat → Nat → Except DotNet.NetException (List RemoteProcessInfo)
  | 0, _ => .ok []
  | n + 1, currentOffset => do
      let (info, currentOffset) ← remoteProcessInfo data currentOffset
      let rest ← readProcesses data n currentOffset
      return info :: rest

/-- `HandlerRemoteProcesses (receiver, data)`: the processes it reports. -/
def handlerRemoteProcesses (data : List UInt8) :
    Except DotNet.NetException (List RemoteProcessInfo) := do
  let processCount ← DotNet.toInt32 data 0
  readProcesses data processCount.toNat 4

end InMemoryFuzzing.RemoteControl

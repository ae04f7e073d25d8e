import InMemoryFuzzing.Platform.DotNet

/-!
# The client's side of EXEC

`RemoteExecCommand`, the command a client sends to have a program started, and
`HandlerExecStatus`, which takes the response apart.
-/

namespace InMemoryFuzzing.RemoteControl

open Base Platform

/-- `RemoteExecCommand`. -/
structure RemoteExecCommand where
  name : String
  path : String
  args : List String
  envp : List String

namespace RemoteExecCommand

/-- One string of the payload: its byte count and its bytes. -/
def stringData (s : String) : List UInt8 :=
  DotNet.getBytesInt16 (DotNet.castInt16 (DotNet.asciiGetBytes s).length) ++ DotNet.asciiGetBytes s

/-- One list of the payload: its count and its strings. -/
def listData (items : List String) : List UInt8 :=
  DotNet.getBytesInt16 (DotNet.castInt16 items.length) ++ (items.map stringData).flatten

/-- `RemoteExecCommand.Data`. -/
def data (c : RemoteExecCommand) : List UInt8 :=
  stringData c.name ++ (stringData c.path ++ (listData c.args ++ listData c.envp))

end RemoteExecCommand

/-- The arguments of the `ExecStatus` event. -/
structure ExecStatus where
  name : String
  pid : Int
  status : Int
  deriving DecidableEq, Repr

/-- `HandlerExecStatus (receiver, data)`: the event it raises. -/
def handlerExecStatus (data : List UInt8) : Except DotNet.NetException ExecStatus := do
  let nameLength ← DotNet.toInt16 data 0
  let name ← DotNet.asciiGetStringAt data 2 nameLength
  -- `GetString` raises on a negative count
  let offset := 2 + nameLength.toNat
  let pid ← DotNet.toInt32 data offset
  let status ← DotNet.toInt32 data (offset + 4)
  return ⟨name, pid, status⟩

end InMemoryFuzzing.RemoteControl

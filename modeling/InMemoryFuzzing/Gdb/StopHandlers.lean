import InMemoryFuzzing.Gdb.SignalRH

/-!
# The permanent response handlers

`GDBConnector` registers `BreakpointRH`, `ExitRH`, `SignalRH`, `RecordLogRH` and
`UnhandledRH`, in this order. While no command waits for a response, every line of
gdb is offered to them in turn; the first four report a stop to `GdbStopped`.
-/

namespace InMemoryFuzzing.Gdb

open Base Platform DotNet Regex
open DataLog (StopReasonEnum)

/-- `GDBBreakpoint`. -/
structure GDBBreakpoint where
  breakpointNum : Int
  address : UInt64
  identifier : String
  deriving DecidableEq, Repr

/-- A call of `GdbStopped`. -/
structure GdbStop where
  stopReason : StopReasonEnum
  breakpoint : Option GDBBreakpoint
  address : UInt64
  status : Int
  deriving DecidableEq, Repr

/-- `_breakpoints`, in the order in which they have been added. -/
abbrev Breakpoints := List GDBBreakpoint

namespace Breakpoints

def lookupBreakpoint (breakpoints : Breakpoints) (breakpointNum : Int) : Option GDBBreakpoint :=
  breakpoints.find? fun br => br.breakpointNum = breakpointNum

def lookupBreakpointByAddress (breakpoints : Breakpoints) (address : UInt64) :
    Option GDBBreakpoint :=
  breakpoints.find? fun br => br.address = address

end Breakpoints

/-! ## Numbers -/

/-- `int.Parse`. -/
def intParse (text : List Char) : Except NetException Int :=
  match intTryParse text with
  | some n => .ok n
  | none => .error (if (parseInteger text).isSome then .overflow else .format)

/-- `Convert.ToInt64 (text, 8)`; the upper half of the numbers is negative. -/
def toInt64Octal (text : List Char) : Except NetException Int :=
  match parseDigits 8 text with
  | some n => if n < 2 ^ 64 then .ok (Int.bmod n (2 ^ 64)) else .error .overflow
  | none => .error .format

/-! ## The handlers -/

/-- What `HandleResponse` has answered, with the stops it has reported. -/
abbrev Handling := Except NetException (HandleResponseEnum × List GdbStop)

variable (chars : CharData) (breakpoints : Breakpoints)

namespace BreakpointRH

def rAddress : Pattern Char :=
  text chars "Breakpoint" ++ [spaces, digits chars, spaces] ++ text chars "," ++ [spaces] ++
    text chars "0x" ++ [word true]

def rSymbol : Pattern Char :=
  text chars "Breakpoint" ++ [spaces, digits chars, spaces] ++ text chars "," ++
    [spaces, word false, spaces] ++ text chars "(" ++ [anything false] ++ text chars ")" ++
    [spaces] ++ text chars "at" ++ [spaces, anything false]

/-- A breakpoint that the connector does not know is not reported. -/
def handleResponse : List (List Char) → Handling
  | [] => .ok (.notHandled, [])
  | line :: lines =>
      match (rAddress chars).search line with
      | some groups => do
          let breakpointNum ← intParse (result groups 0)
          match breakpoints.lookupBreakpoint breakpointNum with
          | some breakpoint =>
              let address ← uint64ParseHex (result groups 1)
              return (.handled, [⟨.breakpoint, some breakpoint, address, 0⟩])
          | none => return (.handled, [])
      | none =>
          match (rSymbol chars).search line with
          | some groups => do
              let breakpointNum ← intParse (result groups 0)
              match breakpoints.lookupBreakpoint breakpointNum with
              | some breakpoint => return (.handled, [⟨.breakpoint, some breakpoint, 0, 0⟩])
              | none => return (.handled, [])
          | none => handleResponse lines

end BreakpointRH

namespace ExitRH

def normal : Pattern Char := text chars "Program has exited normally" ++ [dot]

def withCode : Pattern Char := text chars "Program exited with code " ++ [digits chars]

def handleResponse : List (List Char) → Handling
  | [] => .ok (.notHandled, [])
  | line :: lines =>
      match (normal chars).search line with
      | some _ => .ok (.handled, [⟨.exit, none, 0, 0⟩])
      | none =>
          match (withCode chars).search line with
          | some groups => do
              let status ← toInt64Octal (result groups 0)
              return (.handled, [⟨.exit, none, 0, status⟩])
          | none => handleResponse lines

end ExitRH

/-- The delegate of `SignalRH` is `GdbStopped`; there is no breakpoint. -/
def Stop.toGdbStop (stop : Stop) : GdbStop := ⟨stop.stopReason, none, stop.address, stop.status⟩

def signalHandling (allowRequestLine : Bool) (lines : List (List Char)) : Handling :=
  (SignalRH.handleResponse chars allowRequestLine lines).map fun (answer, stops) =>
    (answer, stops.map Stop.toGdbStop)

namespace RecordLogRH

def r : Pattern Char := text chars "No more reverse-execution history" ++ [dot, spaces]

/-- The pattern of the address and the loop over the lines behind are those of
`SignalRH`. -/
def handleResponse (allowRequestLine : Bool) : List (List Char) → Handling
  | [] => .ok (.notHandled, [])
  | line :: lines =>
      match (r chars).search line with
      | some _ =>
          if lines = [] ∧ allowRequestLine then .ok (.requestLine, [])
          else do
            let address ← SignalRH.findAddress lines
            match address with
            | some address =>
                return (.handled,
                  [⟨.breakpoint, breakpoints.lookupBreakpointByAddress address, address, 0⟩])
            | none =>
                if allowRequestLine then return (.requestLine, [])
                else return (.handled, [⟨.breakpoint, none, 0, 0⟩])
      | none => handleResponse allowRequestLine lines

end RecordLogRH

namespace UnhandledRH

/-- The lines are written to the log. -/
def handleResponse (_responseLines : List (List Char)) : Handling := .ok (.handled, [])

end UnhandledRH

/-! ## `ReceivedNewLine` without a command that waits -/

/-- `_permanentResponseHandlers`, each with what it answers to the lines. -/
def permanentHandlings (allowRequestLine : Bool) (lines : List (List Char)) : List Handling :=
  [BreakpointRH.handleResponse chars breakpoints lines, ExitRH.handleResponse chars lines,
    signalHandling chars allowRequestLine lines,
    RecordLogRH.handleResponse chars breakpoints allowRequestLine lines,
    UnhandledRH.handleResponse lines]

/-- The loop over the handlers: the lines that are left, and the stops reported. -/
def offerLines (gdbReadyForInput : Bool) (lines : List (List Char)) :
    List Handling → Except NetException (List (List Char) × List GdbStop)
  | [] => .ok (lines, [])
  | handling :: others => do
      let (answer, stops) ← handling
      match answer with
      | .handled => return ([], stops)
      | .requestLine =>
          if gdbReadyForInput then
            .error (.argument "Cannot request another response line if gdb is ready for input")
          else return (lines, stops)
      | .notHandled => do
          let (lines, more) ← offerLines gdbReadyForInput lines others
          return (lines, stops ++ more)

/-- `ReceivedNewLine`. -/
def receivedNewLine (gdbReadyForInput : Bool) (lines : List (List Char)) :
    Except NetException (List (List Char) × List GdbStop) :=
  offerLines gdbReadyForInput lines
    (permanentHandlings chars breakpoints (!gdbReadyForInput) lines)

/-- The lines of gdb up to the prompt: each one is offered when it is complete, with
those that wait, and at the prompt what waits is offered again. -/
def receiveOutput : List (List Char) → List (List Char) →
    Except NetException (List (List Char) × List GdbStop)
  | waiting, [] => receivedNewLine chars breakpoints true waiting
  | waiting, line :: output => do
      let (waiting, stops) ← receivedNewLine chars breakpoints false (waiting ++ [line])
      let (waiting, more) ← receiveOutput waiting output
      return (waiting, stops ++ more)

end InMemoryFuzzing.Gdb

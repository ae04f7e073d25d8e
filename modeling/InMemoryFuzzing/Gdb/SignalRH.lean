import InMemoryFuzzing.DataLog.ErrorLog
import InMemoryFuzzing.Gdb.ResponseHandlers
import InMemoryFuzzing.Platform.Enums

/-!
# `SignalRH`

The permanent response handler that hands a signal on to the stop delegate. The delegate is
invoked last, and returns.
-/

namespace InMemoryFuzzing.Gdb

open Base Platform DotNet Regex

/-- An invocation of `GdbStopDelegate`; there is no breakpoint. -/
structure Stop where
  stopReason : DataLog.StopReasonEnum
  address : UInt64
  status : Int
  deriving DecidableEq, Repr

def signalEnum : List (String × Nat) :=
  [("UNKNOWN", 0), ("SIGHUP", 1), ("SIGINT", 2), ("SIGQUIT", 3), ("SIGILL", 4), ("SIGTRAP", 5),
    ("SIGABRT", 6), ("SIGIOT", 6), ("SIGBUS", 7), ("SIGFPE", 8), ("SIGKILL", 9), ("SIGUSR1", 10),
    ("SIGSEGV", 11), ("SIGUSR2", 12), ("SIGPIPE", 13), ("SIGALRM", 14), ("SIGTERM", 15),
    ("SIGSTKFLT", 16), ("SIGCHLD", 17), ("SIGCONT", 18), ("SIGSTOP", 19), ("SIGTSTP", 20),
    ("SIGTTIN", 21), ("SIGTTOU", 22), ("SIGURG", 23), ("SIGXCPU", 24), ("SIGXFSZ", 25),
    ("SIGVTALRM", 26), ("SIGPROF", 27), ("SIGWINCH", 28), ("SIGIO", 29), ("SIGPWR", 30),
    ("SIGUNUSED", 31), ("_NSIG", 64)]

/-- `UInt64.Parse` with `NumberStyles.HexNumber`. -/
def uint64ParseHex (text : List Char) : Except NetException UInt64 :=
  match uint64TryParseHex text with
  | some n => .ok n
  | none => .error (if (parseDigits 16 (trimWhite text)).isSome then .overflow else .format)

namespace SignalRH

def r (chars : CharData) : Pattern Char :=
  text chars "Program received signal " ++ [word true] ++ text chars "," ++ [spaces, anything false]

/-- A text, in this case. -/
def exactText (s : String) : Pattern Char := s.toList.map fun c => .one fun d => d == c

def rAddress : Pattern Char :=
  exactText "0x" ++ [word true, spaces] ++ exactText "in" ++ [anything false]

/-- The loop over the lines behind the signal. -/
def findAddress : List (List Char) → Except NetException (Option UInt64)
  | [] => .ok none
  | responseLine :: lines =>
      match rAddress.search responseLine with
      | some groups => (uint64ParseHex (result groups 0)).map some
      | none => findAddress lines

/-- `HandleResponse`: the answer, and the invocations of the delegate. -/
def handleResponse (chars : CharData) (allowRequestLine : Bool) :
    List (List Char) → Except NetException (HandleResponseEnum × List Stop)
  | [] => .ok (.notHandled, [])
  | line :: lines =>
      match (r chars).search line with
      | some groups =>
          if lines = [] ∧ allowRequestLine then .ok (.requestLine, [])
          else do
            let address ← findAddress lines
            if address = none ∧ allowRequestLine then return (.requestLine, [])
            else
              -- what `Parse` returns is never null
              let eSignal ← enumParse signalEnum (result groups 0)
              return (.handled, [⟨.terminated, address.getD 0, eSignal⟩])
      | none => handleResponse chars allowRequestLine lines

end SignalRH

end InMemoryFuzzing.Gdb

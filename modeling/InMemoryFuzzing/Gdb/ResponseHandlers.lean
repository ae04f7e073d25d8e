import InMemoryFuzzing.Base.Pattern
import InMemoryFuzzing.Gdb.SubProcess

/-!
# Response handlers that answer a request

`InfoAddressRH`, `SetBreakpointRH`, `PrintRH`, `WhatIsRH` and `ReadMemoryRH`: a connector call
queues a command with one of these handlers and waits until the callback of the handler sets an
event. The regular expressions are patterns; only the groups that are read are captured.
-/

namespace InMemoryFuzzing.Gdb

open Base Platform DotNet

/-! ## What a handler does -/

inductive AddressSpecifier
  /-- `StaticAddress`. -/
  | static (address : UInt64)
  /-- `GDBRegisterBasedAddressSpecifier`. -/
  | register (register offset : List Char)
  deriving DecidableEq, Repr

/-- The value `PrintRH` hands to its callback. -/
inductive PrintValue
  | null
  | number (value : UInt64)
  | text (value : List Char)
  deriving DecidableEq, Repr

/-- An invocation of the callback of a handler. -/
inductive Callback
  | resolved (symbol : String) (address : Option AddressSpecifier)
  | setBreakpoint (breakpointNum : Option Int) (breakpointAddress : UInt64)
  | printed (value : PrintValue)
  | whatIs (symbol : String) (returnType : Option (List Char))
      (parameterTypes : Option (List (List Char)))
  | readMemory (readSize : Nat) (buffer : List UInt8)
  deriving DecidableEq, Repr

/-- What `HandleResponse` has done: the invocations of the callback, and the answer, unless an
exception has left it. -/
structure Response where
  callbacks : List Callback
  answer : Option HandleResponseEnum
  deriving DecidableEq, Repr

namespace Response

/-- An answer without a callback. -/
def silent (answer : HandleResponseEnum) : Response := ⟨[], some answer⟩

/-- An exception in front of the callback. -/
def raised : Response := ⟨[], none⟩

/-- The callback is invoked and `Handled` is returned, if the callback returns. -/
def invoke (returns : Callback → Bool) (callback : Callback) : Response :=
  ⟨[callback], if returns callback then some .handled else none⟩

/-- A loop over the lines which the first line with a response ends. -/
def ofLines (lineResponse : List Char → Option Response) (otherwise : Response) :
    List (List Char) → Response
  | [] => otherwise
  | line :: lines =>
      match lineResponse line with
      | some response => response
      | none => ofLines lineResponse otherwise lines

end Response

/-! ## Regular expressions -/

/-- What regular expressions take from the runtime: `ToLower` of the current culture, and the
decimal digits `\d`. -/
structure CharData where
  toLower : Char → Char
  isDigit : Char → Bool

namespace Regex

/-- A text, with `RegexOptions.IgnoreCase`. -/
def text (chars : CharData) (s : String) : Pattern Char :=
  s.toList.map fun c => .one fun d => chars.toLower d == chars.toLower c

/-- `\s*` -/
def spaces : Piece Char := .star isWhiteSpace false

/-- `\S*` -/
def word (captured : Bool) : Piece Char := .star (fun c => !isWhiteSpace c) captured

/-- `[\s*\S*]*`, which are all characters. -/
def anything (captured : Bool) : Piece Char := .star (fun _ => true) captured

/-- `\d+` -/
def digits (chars : CharData) : Piece Char := .plus chars.isDigit true

/-- `.` -/
def dot : Piece Char := .one fun c => c != '\n'

/-- `Match.Result` for a group. -/
def result (groups : List (List Char)) (group : Nat) : List Char := groups.getD group []

end Regex

open Regex

section

variable (chars : CharData) (returns : Callback → Bool)

/-! ## `InfoAddressRH` -/

namespace InfoAddressRH

def rStaticSymbol : Pattern Char :=
  text chars "Symbol \"" ++ [word false] ++ text chars "\"" ++ [spaces] ++ text chars "is" ++
    [spaces, anything false] ++ text chars " at address 0x" ++ [word true, dot]

def rVariableSymbol : Pattern Char :=
  text chars "Symbol \"" ++ [word false] ++ text chars "\"" ++ [spaces] ++ text chars "is" ++
    [spaces, anything false] ++ text chars " at " ++ [anything false] ++ text chars " $" ++
    [word true] ++ text chars " offset " ++ [anything true, dot]

def rNoSymbol : Pattern Char :=
  text chars "No" ++ [spaces] ++ text chars "symbol" ++ [spaces] ++ text chars "\"" ++
    [word false] ++ text chars "\"" ++ [spaces] ++ text chars "in" ++ [spaces] ++
    text chars "current" ++ [spaces] ++ text chars "context" ++ [dot]

/-- The body of the loop. -/
def lineResponse (symbol : String) (line : List Char) : Option Response :=
  match (rStaticSymbol chars).search line with
  | some groups =>
      match uint64TryParseHex (result groups 0) with
      | some at_ => some (.invoke returns (.resolved symbol (some (.static at_))))
      | none => some .raised
  | none =>
      match (rVariableSymbol chars).search line with
      | some groups =>
          some (.invoke returns (.resolved symbol
            (some (.register (result groups 0) (result groups 1)))))
      | none =>
          match (rNoSymbol chars).search line with
          | some _ => some (.invoke returns (.resolved symbol none))
          | none => none

def handleResponse (symbol : String) (responseLines : List (List Char)) : Response :=
  -- behind the loop the callback has not been invoked
  .ofLines (lineResponse chars returns symbol) (.silent .handled) responseLines

end InfoAddressRH

/-! ## `SetBreakpointRH` -/

namespace SetBreakpointRH

def rWithoutFile : Pattern Char :=
  text chars "Breakpoint" ++ [spaces, digits chars, spaces] ++ text chars "at" ++ [spaces] ++
    text chars "0x" ++ [word true]

def rWithFile : Pattern Char := rWithoutFile chars ++ text chars ":" ++ [anything false]

/-- The breakpoint of a match is handed to the callback. -/
def matched (groups : List (List Char)) : Response :=
  match intTryParse (result groups 0), uint64TryParseHex (result groups 1) with
  | some num, some at_ => .invoke returns (.setBreakpoint (some num) at_)
  | _, _ => .raised

/-- The body of the loop. -/
def lineResponse (line : List Char) : Option Response :=
  match (rWithFile chars).search line with
  | some groups => some (matched returns groups)
  | none =>
      match (rWithoutFile chars).search line with
      | some groups => some (matched returns groups)
      | none => none

def handleResponse (responseLines : List (List Char)) (allowRequestLine : Bool) : Response :=
  if allowRequestLine then .silent .requestLine
  -- an undefined response is handed on as a breakpoint that is not set
  else .ofLines (lineResponse chars returns) (.invoke returns (.setBreakpoint none 0)) responseLines

end SetBreakpointRH

/-! ## `PrintRH` -/

/-- `PrintCmd.Format`. -/
inductive Format
  | hex
  | none_
  deriving DecidableEq, Repr

namespace PrintRH

def r : Pattern Char := [anything false] ++ text chars "=" ++ [spaces, anything true]

def rNoRegisters : Pattern Char := text chars "No registers"

def rNoSymbol : Pattern Char :=
  text chars "No symbol \"" ++ [word false] ++ text chars "\" in current context" ++ [dot]

/-- The value of a match is handed to the callback. -/
def matched (format : Format) (value : List Char) : Response :=
  if format = .hex ∧ "0x".toList <+: trim value then
    match uint64TryParseHex ((trim value).drop 2) with
    | some number => .invoke returns (.printed (.number number))
    | none => .raised
  else .invoke returns (.printed (.text value))

/-- The body of the loop. -/
def lineResponse (format : Format) (line : List Char) : Option Response :=
  match (r chars).search line with
  | some groups => some (matched returns format (result groups 0))
  | none =>
      match (rNoRegisters chars).search line with
      | some _ => some (.invoke returns (.printed .null))
      | none =>
          match (rNoSymbol chars).search line with
          | some _ => some (.invoke returns (.printed .null))
          | none => none

def handleResponse (format : Format) (responseLines : List (List Char)) (allowRequestLine : Bool) :
    Response :=
  if allowRequestLine then .silent .requestLine
  else .ofLines (lineResponse chars returns format) (.silent .notHandled) responseLines

end PrintRH

/-! ## `WhatIsRH` -/

namespace WhatIsRH

def r : Pattern Char :=
  text chars "type = " ++ [word true] ++ text chars " (" ++ [anything true] ++ text chars ")"

def rNoDebugInfo : Pattern Char := text chars "type = " ++ [anything false]

def rNoSymbol : Pattern Char := text chars "No symbol " ++ [anything false]

/-- The parameters that are not empty. -/
def realParameters (parameters : List Char) : List (List Char) :=
  ((parameters.splitOn ',').map trim).filter fun paramName => !paramName.isEmpty

/-- Only the first line is read. -/
def handleResponse (symbol : String) (responseLines : List (List Char)) : Response :=
  match responseLines with
  -- `responseLines[0]`
  | [] => .raised
  | line :: _ =>
      match (rNoSymbol chars).search line with
      | some _ => .invoke returns (.whatIs symbol none none)
      | none =>
          match (r chars).search line with
          | some groups =>
              .invoke returns
                (.whatIs symbol (some (result groups 0)) (some (realParameters (result groups 1))))
          | none =>
              match (rNoDebugInfo chars).search line with
              | some _ => .invoke returns (.whatIs symbol (some []) none)
              | none => .invoke returns (.whatIs symbol (some []) none)

end WhatIsRH

/-! ## `ReadMemoryRH` -/

namespace ReadMemoryRH

def rError : Pattern Char :=
  text chars "0x" ++ [anything false] ++ text chars ":" ++ [spaces] ++
    text chars "Cannot access memory at address" ++ [anything false]

def rSuccess : Pattern Char :=
  text chars "0x" ++ [anything false] ++ text chars ":" ++ [spaces, anything true]

/-- The loop over the values of a line; a value that is no byte is skipped. -/
def readValues : List (List Char) → List UInt8 × Nat → List UInt8 × Nat
  | [], read => read
  | v :: values, (buffer, readBytes) =>
      if buffer.length ≤ readBytes then (buffer, readBytes)
      else if "0x".toList <+: v then
        match byteParseHex (v.drop 2) with
        | some byte => readValues values (buffer.set readBytes byte, readBytes + 1)
        -- `continue` in the catch clause: the place in the buffer stays
        | none => readValues values (buffer, readBytes)
      else (buffer, readBytes)

/-- The loop over the lines. -/
def readLines : List (List Char) → List UInt8 × Nat → List UInt8 × Nat
  | [], read => read
  | responseLine :: lines, (buffer, readBytes) =>
      if buffer.length ≤ readBytes then (buffer, readBytes)
      else if ((rError chars).search responseLine).isSome then (buffer, readBytes)
      else
        match (rSuccess chars).search responseLine with
        | some groups =>
            readLines lines (readValues ((trim (result groups 0)).splitOn '\t') (buffer, readBytes))
        | none => readLines lines (buffer, readBytes)

def handleResponse (buffer : List UInt8) (responseLines : List (List Char))
    (allowRequestLine : Bool) : Response :=
  if allowRequestLine then .silent .requestLine
  else
    let read := readLines chars responseLines (buffer, 0)
    .invoke returns (.readMemory read.2 read.1)

end ReadMemoryRH

end

/-! ## The handlers -/

/-- A handler and its data. -/
inductive ResponseHandler
  | infoAddress (symbol : String)
  | setBreakpoint
  | print (format : Format)
  | whatIs (symbol : String)
  | readMemory (buffer : List UInt8)
  deriving DecidableEq, Repr

/-- `HandleResponse`. -/
def ResponseHandler.handleResponse (chars : CharData) (returns : Callback → Bool)
    (responseLines : List (List Char)) (allowRequestLine : Bool) : ResponseHandler → Response
  | .infoAddress symbol => InfoAddressRH.handleResponse chars returns symbol responseLines
  | .setBreakpoint => SetBreakpointRH.handleResponse chars returns responseLines allowRequestLine
  | .print format => PrintRH.handleResponse chars returns format responseLines allowRequestLine
  | .whatIs symbol => WhatIsRH.handleResponse chars returns symbol responseLines
  | .readMemory buffer =>
      ReadMemoryRH.handleResponse chars returns buffer responseLines allowRequestLine

/-! ## Waiting for the callback -/

/-- A connector call (`ResolveSymbol`, `SetSoftwareBreakpoint`, `GetRegisterValue`,
`GetParametersForMethod`, `ReadMemory`) that has queued its command: has its event been set, and
has the handler returned `Handled`? -/
structure Request where
  evt : Bool
  completed : Bool
  deriving DecidableEq, Repr

/-- The lines and `allowRequestLine` of a call of `HandleResponse`. -/
structure HandlerCall where
  responseLines : List (List Char)
  allowRequestLine : Bool
  deriving DecidableEq, Repr

/-- The handler is called until it returns `Handled`. The callback sets the event, and
returns. -/
def Request.step (chars : CharData) (rh : ResponseHandler) (request : Request)
    (call : HandlerCall) : Option Request :=
  if request.completed then none
  else
    let response := rh.handleResponse chars (fun _ => true) call.responseLines call.allowRequestLine
    some ⟨request.evt || !response.callbacks.isEmpty, response.answer == some .handled⟩

/-- The calls of the handler of one command. -/
def requests (chars : CharData) (rh : ResponseHandler) : TSys Request HandlerCall where
  init request := request = ⟨false, false⟩
  step := Request.step chars rh

end InMemoryFuzzing.Gdb

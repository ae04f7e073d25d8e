import InMemoryFuzzing.Platform.CLib
import InMemoryFuzzing.Platform.DotNet

/-!
# The allocation log and its reader

`log_memory_allocations.c` is preloaded into the target and prints a line for
every allocation; `SimpleHeapOverflowAnalyzer` reads the lines back and keeps
the allocated ranges. The text is a list of characters on both sides.

The calls are logged one at a time, and logging itself allocates nothing.
-/

namespace InMemoryFuzzing.Analyzers

open Base Platform

/-! ## The preloaded library -/

/-- `output_mem_allocation (called_function, fmt, ...)`: what it prints. `arguments`
is what `vdprintf` prints for the format, `backtrace` the instruction pointers
`_Unwind_Backtrace` visits. -/
def outputMemAllocation (calledFunction arguments : List Char) (backtrace : List UInt64) :
    List Char :=
  calledFunction ++ ": args=[".toList ++ arguments ++ "] bt=[".toList ++
    (backtrace.map fun ip => CLib.formatP ip ++ " ".toList).flatten ++ "]\n".toList

/-- A call of the preloaded functions, with its result. -/
inductive AllocCall
  | malloc (size p : UInt64)
  | calloc (nmemb size p : UInt64)
  | free (ptr : UInt64)
  deriving DecidableEq, Repr

/-- A call and where it came from. -/
structure LoggedCall where
  call : AllocCall
  backtrace : List UInt64
  deriving DecidableEq, Repr

/-- The format of a call and what is printed for it. -/
def AllocCall.arguments : AllocCall → List Char
  | .malloc size p =>
      "size=".toList ++ CLib.formatLu size ++ " return=".toList ++ CLib.formatP p
  | .calloc nmemb size p =>
      "num=".toList ++ CLib.formatLu nmemb ++ " size=".toList ++ CLib.formatLu size ++
        " return=".toList ++ CLib.formatP p
  | .free ptr => "ptr=".toList ++ CLib.formatP ptr

/-- The name under which a call is logged. -/
def AllocCall.calledFunction : AllocCall → List Char
  | .malloc _ _ => "malloc".toList
  | .calloc _ _ _ => "calloc".toList
  | .free _ => "free".toList

/-- What a call prints. -/
def LoggedCall.text (c : LoggedCall) : List Char :=
  outputMemAllocation c.call.calledFunction c.call.arguments c.backtrace

/-- What `realloc (ptr, size) = p` prints. The name and the format stand side by
side without a comma, so they are one string, the name; the format is then the
first argument, `ptr`. `vdprintf` stands for what that function prints for a
format at an address of the target and the arguments behind it. -/
def reallocText (vdprintf : UInt64 → List UInt64 → List Char) (ptr size p : UInt64)
    (backtrace : List UInt64) : List Char :=
  outputMemAllocation ("realloc".toList ++ "ptr=%p size=%lu return=%p".toList)
    (vdprintf ptr [size, p]) backtrace

/-! ## The reader -/

/-- `RangeInfo`. -/
structure RangeInfo where
  startAddress : UInt64
  size : UInt64
  backtrace : List UInt64
  deriving DecidableEq, Repr

/-- The dictionary of `ExtractArguments`. -/
abbrev Arguments := List Char → Option (List Char)

/-- `arguments[key] = value`, whether the key is there or not. -/
def Arguments.set (arguments : Arguments) (key value : List Char) : Arguments :=
  fun k => if k = key then some value else arguments k

/-- One argument; a text without `=` is left out. -/
def addArgument (arguments : Arguments) (argKeyVal : List Char) : Arguments :=
  match cutAt '=' argKeyVal with
  | some (key, value) => arguments.set key value
  | none => arguments

/-- The text behind `word` up to the next bracket: `IndexOf` and `Substring`. A
missing bracket makes the length negative, and `Substring` raises. -/
def bracketed (word currentLine : List Char) : Option (Except DotNet.NetException (List Char)) :=
  (behind word currentLine).map fun rest =>
    match cutAt ']' rest with
    | some (text, _) => .ok text
    | none => .error .outOfRange

/-- `ExtractArguments`. -/
def extractArguments (currentLine : List Char) : Except DotNet.NetException Arguments :=
  match bracketed "args=[".toList currentLine with
  | none => .ok fun _ => none
  | some text => text.map fun text => (DotNet.split text).foldl addArgument fun _ => none

/-- `StartsWith ("0x")`, in either case. -/
def startsWith0x (text : List Char) : Bool := DotNet.toLower (text.take 2) = "0x".toList

/-- One address of a backtrace; what is no address is left out. -/
def parseAddress (hexAddress : List Char) : Option UInt64 :=
  if startsWith0x hexAddress then DotNet.uint64TryParseHex (hexAddress.drop 2) else none

/-- `ExtractBacktrace`. -/
def extractBacktrace (currentLine : List Char) : Except DotNet.NetException (List UInt64) :=
  match bracketed "bt=[".toList currentLine with
  | none => .ok []
  | some text => text.map fun text => (DotNet.splitRemoveEmpty text).filterMap parseAddress

/-- `ParseNumber`. -/
def parseNumber (name : String) (arguments : Arguments) : Option UInt64 := do
  let value ← arguments name.toList
  if startsWith0x value then DotNet.uint64TryParseHex (value.drop 2)
  else DotNet.uint64TryParse value

/-- `LH_malloc`: the range it adds, if it finds its arguments. -/
def lhMalloc (currentLine : List Char) : Except DotNet.NetException (Option RangeInfo) := do
  let bt ← extractBacktrace currentLine
  let arguments ← extractArguments currentLine
  return do
    let address ← parseNumber "return" arguments
    let size ← parseNumber "size" arguments
    return ⟨address, size, bt⟩

/-- `LH_calloc`. -/
def lhCalloc (currentLine : List Char) : Except DotNet.NetException (Option RangeInfo) := do
  let bt ← extractBacktrace currentLine
  let arguments ← extractArguments currentLine
  return do
    let address ← parseNumber "return" arguments
    let size ← parseNumber "size" arguments
    let num ← parseNumber "num" arguments
    return ⟨address, size * num, bt⟩

/-- `_lineHandlers`. -/
def lineHandlers (lineId : List Char) :
    Option (List Char → Except DotNet.NetException (Option RangeInfo)) :=
  if lineId = "malloc".toList then some lhMalloc
  else if lineId = "realloc".toList then some lhMalloc
  else if lineId = "calloc".toList then some lhCalloc
  else none

/-- What one line adds to `_rangeInfos`. -/
def readLine (currentLine : List Char) : Except DotNet.NetException (Option RangeInfo) :=
  match cutAt ':' currentLine with
  | none => .ok none
  | some (front, _) =>
      match lineHandlers (DotNet.toLower (DotNet.trim front)) with
      | none => .ok none
      | some handler => handler currentLine

/-- `_rangeInfos` behind the lines of a log. -/
def readRangeLines : List (List Char) → Except DotNet.NetException (List RangeInfo)
  | [] => .ok []
  | line :: lines => do
      let range ← readLine line
      let ranges ← readRangeLines lines
      return range.toList ++ ranges

/-- `_rangeInfos` behind the reading loop of `Analyze`, for the text of the pipes
file. -/
def rangeInfos (text : List Char) : Except DotNet.NetException (List RangeInfo) :=
  readRangeLines (DotNet.readLines text)

end InMemoryFuzzing.Analyzers

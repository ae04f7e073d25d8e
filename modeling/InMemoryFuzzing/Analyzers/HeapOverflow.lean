import InMemoryFuzzing.Analyzers.HeapLog
import InMemoryFuzzing.Base.Collect
import InMemoryFuzzing.CoreDump.RecordSection

/-!
# `SimpleHeapOverflowAnalyzer.Analyze` behind the reading loop

For every memory change of the executed instructions the analyzer looks for the
allocated range that is to count as the one that was written to, separately for
the first and for the last byte of the change, and reports a write that lies
outside of it, but not far.
-/

namespace InMemoryFuzzing.Analyzers

open Base Platform CoreDump

/-- The conversion `(long)`, and the result of `long` arithmetic. -/
def castLong (x : Int) : Int := Int.bmod x (2 ^ 64)

/-- `Math.Abs` of a `long`; the smallest one has no absolute value. -/
def mathAbs (x : Int) : Except DotNet.NetException Int :=
  if x = -2 ^ 63 then .error .overflow else .ok |x|

namespace RangeInfo

def endAddress (r : RangeInfo) : UInt64 := r.startAddress + r.size - 1

/-- `Distance`: negative in front of the range, positive behind it. -/
def distance (r : RangeInfo) (address : UInt64) : Int :=
  if address < r.startAddress then castLong (castLong address.toNat - castLong r.startAddress.toNat)
  else if r.endAddress < address then
    castLong (castLong address.toNat - castLong r.endAddress.toNat)
  else 0

end RangeInfo

/-- A distance and the range it belongs to; `none` is null. -/
abbrev Candidate := Option (Int × RangeInfo)

/-- The condition under which a range replaces the candidate found so far. -/
def replaces (candidate : Candidate) (localDistance : Int) : Except DotNet.NetException Bool :=
  match candidate with
  | none => .ok true
  | some (distance, _) =>
      if localDistance = 0 then .ok true
      else if distance = 0 then .ok false
      else do
        let localAbs ← mathAbs localDistance
        let abs ← mathAbs distance
        return localAbs > abs

/-- One range, for one of the two bytes. -/
def considerRange (candidate : Candidate) (r : RangeInfo) (address : UInt64) :
    Except DotNet.NetException Candidate := do
  let localDistance := r.distance address
  return if ← replaces candidate localDistance then some (localDistance, r) else candidate

/-- The two candidates of the range loop. -/
structure Candidates where
  start : Candidate
  finish : Candidate

/-- Both distances are there and 0. -/
def Candidates.done (c : Candidates) : Bool :=
  match c.start, c.finish with
  | some (startDistance, _), some (endDistance, _) => startDistance = 0 && endDistance = 0
  | _, _ => false

/-- The loop over `_rangeInfos`, which ends early when both bytes lie in a range. -/
def rangeLoop (first last : UInt64) :
    Candidates → List RangeInfo → Except DotNet.NetException Candidates
  | c, [] => .ok c
  | c, r :: rest => do
      let start ← considerRange c.start r first
      let finish ← considerRange c.finish r last
      let c := Candidates.mk start finish
      if c.done then return c else rangeLoop first last c rest

inductive OverflowType
  | start
  | end_
  | startAndEnd
  deriving DecidableEq, Repr

/-- A `simple_heap_overflow` node. -/
structure OverflowReport where
  overflowType : OverflowType
  memStart : UInt64
  memEnd : UInt64
  size : UInt64
  backtrace : List UInt64
  deriving DecidableEq, Repr

/-- A distance that is there, is not 0 and is below 4096. -/
def isNear (candidate : Candidate) : Except DotNet.NetException Bool :=
  match candidate with
  | none => .ok false
  | some (distance, _) =>
      if distance = 0 then .ok false
      else do
        let abs ← mathAbs distance
        return abs < 4096

/-- A distance that is there and is not 0. -/
def isOutside : Candidate → Bool
  | none => false
  | some (distance, _) => distance ≠ 0

/-- The last written byte. -/
def lastByte (memChange : MemoryChange) : UInt64 :=
  memChange.address + UInt64.ofNat memChange.value.length - 1

/-- What is logged for a memory change, given the candidates. -/
def logOverflow (memChange : MemoryChange) (c : Candidates) :
    Except DotNet.NetException (Option OverflowReport) := do
  let report (overflowType : OverflowType) (candidate : Candidate) : Option OverflowReport :=
    candidate.map fun (_, r) => ⟨overflowType, memChange.address, lastByte memChange,
      UInt64.ofNat memChange.value.length, r.backtrace⟩
  if ← isNear c.start then
    return report (if isOutside c.finish then .startAndEnd else .start) c.start
  else if ← isNear c.finish then return report .end_ c.finish
  else return none

/-- The analysis of one memory change. -/
def analyzeChange (ranges : List RangeInfo) (memChange : MemoryChange) :
    Except DotNet.NetException (Option OverflowReport) := do
  let c ← rangeLoop memChange.address (lastByte memChange) ⟨none, none⟩ ranges
  logOverflow memChange c

/-- The loops over the instructions and their memory changes. -/
def analyzeChanges (ranges : List RangeInfo) (memoryChanges : List MemoryChange) :
    Except DotNet.NetException (List OverflowReport) :=
  collect (fun memChange => (analyzeChange ranges memChange).map Option.toList) memoryChanges

/-- `Analyze`, for the text of the pipes file and the executed instructions. -/
def analyzeOverflows (pipesText : List Char) (executedInstructions : List InstructionDescription) :
    Except DotNet.NetException (List OverflowReport) := do
  let ranges ← rangeInfos pipesText
  if ranges = [] then return []
  else analyzeChanges ranges (executedInstructions.flatMap InstructionDescription.memoryChanges)

end InMemoryFuzzing.Analyzers

import InMemoryFuzzing.DataLog.ErrorLog

/-!
# `ProgramErrorAnalyzer`

If a run has an error log, its first record is reported.
-/

namespace InMemoryFuzzing.Analyzers

open Platform DotNet Utils DataLog

/-- `ToString` of a number converted to `StopReasonEnum`. -/
def stopReasonToString (stopReason : Int) : String :=
  if stopReason = 0 then "Breakpoint"
  else if stopReason = 1 then "Exit"
  else if stopReason = 2 then "Terminated"
  else toString stopReason

/-- The node of a report. -/
structure ProgramErrorReport where
  runPrefix : String
  stopReason : String
  status : Int64
  address : UInt64
  deriving DecidableEq, Repr

/-- `ProgramErrorAnalyzer.Analyze`. -/
def analyzeProgramError (fs : FileSystem) (path runPrefix : String) :
    Except NetException (Option ProgramErrorReport) :=
  match fs.openRead (pathCombine path (runPrefix ++ ".errorlog")) with
  | none => .ok none
  | some src => do
      let (stopReason, src) ← readInt32 src
      let (status, src) ← readInt64 src
      let (address, _) ← readUInt64 src
      return some ⟨runPrefix, stopReasonToString stopReason, status, address⟩

/-- The report that says what a stop was. -/
def programErrorReport (runPrefix : String) (stop : DebuggerStop) : ProgramErrorReport :=
  ⟨runPrefix, stopReasonToString stop.stopReason.toInt, stop.status, stop.address⟩

/-- A logged stop is reported as it was. -/
theorem analyzeProgramError_record {fs : FileSystem} {path runPrefix : String} {stop : DebuggerStop}
    (h : fs (pathCombine path (runPrefix ++ ".errorlog")) = some (errorRecord stop)) :
    analyzeProgramError fs path runPrefix = .ok (some (programErrorReport runPrefix stop)) := by
  have hrange : -2 ^ 31 ≤ stop.stopReason.toInt ∧ stop.stopReason.toInt < 2 ^ 31 := by
    cases stop.stopReason <;> decide
  have hsrc : errorRecord stop = writeInt32 stop.stopReason.toInt ++
      (writeInt64 stop.status ++ (writeUInt64 stop.address ++ [])) := by
    rw [errorRecord, List.append_nil, List.append_assoc]
  rw [analyzeProgramError, FileSystem.openRead, h, hsrc]
  dsimp only
  rw [readInt32_writeInt32 hrange.1 hrange.2]
  simp only [bind, Except.bind, readInt64_writeInt64, readUInt64_writeUInt64]
  rfl

end InMemoryFuzzing.Analyzers

import InMemoryFuzzing.Utils.StreamHelper

/-!
# `ErrorLog`

The log of the stops that are no breakpoints. Its file is created when the first
such stop of a run is logged, and closed at the end of the run.
-/

namespace InMemoryFuzzing.DataLog

open Platform DotNet Utils

/-! ## Debugger stops -/

inductive StopReasonEnum
  /-- A breakpoint has been hit. -/
  | breakpoint
  /-- The program exited. -/
  | exit
  /-- The program unexpectedly terminated. -/
  | terminated
  deriving DecidableEq, Repr

/-- The conversion to `int`. -/
def StopReasonEnum.toInt : StopReasonEnum → Int
  | .breakpoint => 0
  | .exit => 1
  | .terminated => 2

/-- `DebuggerStop`. -/
structure DebuggerStop where
  stopReason : StopReasonEnum
  address : UInt64
  status : Int64
  deriving DecidableEq, Repr

/-! ## The log -/

structure ErrorLog where
  path : String
  runPrefix : Option String
  logStream : Option FileSink

namespace ErrorLog

/-- `BuildLogFile`; the prefix may be null. -/
def buildLogFile (path : String) (runPrefix : Option String) : String :=
  let filename :=
    match runPrefix with
    | some p => if p ≠ "" then p ++ ".errorlog" else "current.errorlog"
    | none => "current.errorlog"
  pathCombine path filename

/-- `FinishedFuzzRun`. -/
def finishedFuzzRun (l : ErrorLog) : ErrorLog := { l with logStream := none }

/-- `StartingFuzzRun`. -/
def startingFuzzRun (l : ErrorLog) : ErrorLog := l

/-- `LogDebuggerStop`. -/
def logDebuggerStop (l : ErrorLog) (fs : FileSystem) (debuggerStop : DebuggerStop) :
    ErrorLog × FileSystem :=
  let opened :=
    match l.logStream with
    | some sink => (sink, fs)
    | none => fs.openWrite (buildLogFile l.path l.runPrefix)
  let written := opened.1.write opened.2 (writeInt32 debuggerStop.stopReason.toInt)
  let written := written.1.write written.2 (writeInt64 debuggerStop.status)
  let written := written.1.write written.2 (writeUInt64 debuggerStop.address)
  ({ l with logStream := some written.1 }, written.2)

end ErrorLog

/-- The bytes logged for a stop. -/
def errorRecord (debuggerStop : DebuggerStop) : List UInt8 :=
  writeInt32 debuggerStop.stopReason.toInt ++ writeInt64 debuggerStop.status ++
    writeUInt64 debuggerStop.address

theorem errorRecord_length (stop : DebuggerStop) : (errorRecord stop).length = 20 := by
  simp [errorRecord, writeInt32, writeInt64, writeUInt64, getBytesInt32, getBytesInt64,
    getBytesUInt64]

/-- A write over what is behind the front of the file. -/
theorem write_set (file : String) (fs : FileSystem) (front behind data : List UInt8) :
    FileSink.write ⟨file, front.length⟩ (fs.set file (some (front ++ behind))) data =
      (⟨file, (front ++ data).length⟩,
        fs.set file (some (front ++ data ++ behind.drop data.length))) := by
  rw [FileSink.write_over (FileSystem.set_self _ _ _) rfl, FileSystem.set_set]

/-- The first record of a run overwrites the front of an existing file. -/
theorem ErrorLog.logDebuggerStop_file {l : ErrorLog} (hclosed : l.logStream = none)
    (fs : FileSystem) (stop : DebuggerStop) :
    (l.logDebuggerStop fs stop).2 = fs.set (buildLogFile l.path l.runPrefix)
      (some (errorRecord stop ++ ((fs (buildLogFile l.path l.runPrefix)).getD []).drop 20)) := by
  generalize hfile : buildLogFile l.path l.runPrefix = file
  generalize hold : (fs file).getD [] = old
  have hrecord := errorRecord_length stop
  have hfirst := write_set file fs [] old (writeInt32 stop.stopReason.toInt)
  rw [List.nil_append] at hfirst
  rw [logDebuggerStop, hclosed]
  dsimp only
  rw [hfile, FileSystem.openWrite, hold]
  dsimp only
  rw [show (⟨file, 0⟩ : FileSink) = ⟨file, ([] : List UInt8).length⟩ from rfl, hfirst]
  dsimp only
  rw [write_set]
  dsimp only
  rw [write_set, List.drop_drop, List.drop_drop, List.nil_append]
  rw [errorRecord, List.length_append, List.length_append] at hrecord
  rw [← hrecord, Nat.add_assoc]
  rfl

/-- It is the only record of a new one. -/
theorem ErrorLog.logDebuggerStop_new {l : ErrorLog} {fs : FileSystem} (hclosed : l.logStream = none)
    (hnew : fs (buildLogFile l.path l.runPrefix) = none) (stop : DebuggerStop) :
    (l.logDebuggerStop fs stop).2 =
      fs.set (buildLogFile l.path l.runPrefix) (some (errorRecord stop)) := by
  rw [logDebuggerStop_file hclosed, hnew, Option.getD_none, List.drop_nil, List.append_nil]

end InMemoryFuzzing.DataLog

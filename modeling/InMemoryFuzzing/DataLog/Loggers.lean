import InMemoryFuzzing.Analyzers.SavedRegisters
import InMemoryFuzzing.Base.Places
import InMemoryFuzzing.DataLog.ErrorLog
import InMemoryFuzzing.DataLog.PipeLog
import InMemoryFuzzing.DataLog.ReplayLog

/-!
# `LoggerCollection`

The loggers of a session: any of `DataGeneratorLogger`, `StackFrameLogger` and
`RemotePipeLogger`. Each of them looks at its own files alone, and starts them anew with every
run, whether they were there before or not.
-/

namespace InMemoryFuzzing.DataLog

open Base Platform DotNet Utils Analyzers

/-! ## `StackFrameLogger` -/

/-- `GDBStackFrameInfo.Write`. -/
def stackFrameInfoWrite (info : StackFrameInfo) : List UInt8 :=
  writeInt32 info.savedRegisters.length ++
    info.savedRegisters.flatMap fun (name, address) =>
      writeString name ++
        match address with
        | none => writeBool false
        | some address => writeBool true ++ writeUInt64 address

structure StackFrameLogger where
  path : String
  runPrefix : Option String

namespace StackFrameLogger

/-- `BuildLogFile`; the prefix may be null. -/
def buildLogFile (path : String) (runPrefix : Option String) : String :=
  let filename :=
    match runPrefix with
    | some p => if p ≠ "" then p ++ ".stackframeinfo" else "current.stackframeinfo"
    | none => "current.stackframeinfo"
  pathCombine path filename

/-- `StartingFuzzRun`; the connector may have no information. -/
def startingFuzzRun (l : StackFrameLogger) (stackFrameInfo : Option StackFrameInfo)
    (fs : FileSystem) : FileSystem :=
  let logFile := buildLogFile l.path l.runPrefix
  -- `OpenWrite` alone would keep what is longer in an old file
  let fs := if fs.existsFile logFile then fs.delete logFile else fs
  let opened := fs.openWrite logFile
  match stackFrameInfo with
  | none => opened.2
  | some info =>
      (opened.1.write opened.2
        (writeTypedStreamSerializable "gdb_stack_frame_info" (stackFrameInfoWrite info))).2

end StackFrameLogger

/-! ## `LoggerCollection` -/

/-- The loggers that are enabled. -/
structure LoggerCollection where
  dataGeneratorLogger : Option DataGeneratorLogger
  stackFrameLogger : Option StackFrameLogger
  remotePipeLogger : Option (RemotePipeLogger UInt8)

/-- A call on a logger, if it is enabled. -/
def forLogger {σ : Type} (op : σ → FileSystem → σ × FileSystem) :
    Option σ → FileSystem → Option σ × FileSystem
  | none, fs => (none, fs)
  | some l, fs => (some (op l fs).1, (op l fs).2)

namespace LoggerCollection

/-- The setter of `Prefix`. -/
def setPrefix (runPrefix : String) (c : LoggerCollection) : LoggerCollection where
  dataGeneratorLogger := c.dataGeneratorLogger.map fun l => { l with runPrefix := some runPrefix }
  stackFrameLogger := c.stackFrameLogger.map fun l => { l with runPrefix := some runPrefix }
  remotePipeLogger := c.remotePipeLogger.map fun l => { l with runPrefix := some runPrefix }

/-- `StartingFuzzRun`. -/
def startingFuzzRun (c : LoggerCollection) (stackFrameInfo : Option StackFrameInfo)
    (fs : FileSystem) : LoggerCollection × FileSystem :=
  let data := forLogger DataGeneratorLogger.startingFuzzRun c.dataGeneratorLogger fs
  let frame := forLogger (fun l fs => (l, l.startingFuzzRun stackFrameInfo fs))
    c.stackFrameLogger data.2
  let pipe := forLogger RemotePipeLogger.startingFuzzRun c.remotePipeLogger frame.2
  (⟨data.1, frame.1, pipe.1⟩, pipe.2)

/-- `FinishedFuzzRun`. -/
def finishedFuzzRun (c : LoggerCollection) (fs : FileSystem) :
    Except NetException (LoggerCollection × FileSystem) := do
  let pipe ← match c.remotePipeLogger with
    | some l => (l.finishedFuzzRun fs).map fun finished => (some finished.1, finished.2)
    | none => .ok (none, fs)
  return (⟨c.dataGeneratorLogger.map DataGeneratorLogger.finishedFuzzRun, c.stackFrameLogger, pipe.1⟩,
    pipe.2)

/-- A data generator calls `LogData`. -/
def logData (c : LoggerCollection) (data : List UInt8) (fs : FileSystem) :
    LoggerCollection × FileSystem :=
  let logged := forLogger (fun l fs => l.logData fs data) c.dataGeneratorLogger fs
  ({ c with dataGeneratorLogger := logged.1 }, logged.2)

/-- A packet of a pipe arrives. -/
def handlerPipeData (passed : List Nat → Nat) (c : LoggerCollection) (pipeName : String)
    (data : List UInt8) (index offset : Nat) (fs : FileSystem) : LoggerCollection × FileSystem :=
  let logged := forLogger (fun (l : RemotePipeLogger UInt8) fs =>
    l.handlerPipeData passed RemotePipeLogger.asciiText fs pipeName data index offset)
    c.remotePipeLogger fs
  ({ c with remotePipeLogger := logged.1 }, logged.2)

end LoggerCollection

/-! ## One logger -/

/-- Another content for one file. -/
theorem local_set {σ : Type} (path : String) (s : σ)
    (f : Option (List UInt8) → Option (List UInt8)) :
    Local fun fs : FileSystem => (s, fs.set path (f (fs path))) := by
  simp only [FileSystem.set_eq_update]
  exact Local.update path s f

theorem keeps_set {σ : Type} {path g : String} (h : g ≠ path) (s : σ)
    (f : Option (List UInt8) → Option (List UInt8)) :
    Keeps (fun fs : FileSystem => (s, fs.set path (f (fs path)))) g :=
  fun _ => FileSystem.set_of_ne h _ _

theorem resets_set {σ : Type} (path : String) (s : σ) (contents : Option (List UInt8)) :
    Resets (fun fs : FileSystem => (s, fs.set path contents)) path := by
  intro fs fs'
  simp only [FileSystem.set_self]

namespace DataGeneratorLogger

theorem startingFuzzRun_local (l : DataGeneratorLogger) : Local l.startingFuzzRun := by
  rw [startingFuzzRun_eq]
  exact local_set _ _ fun _ => some []

theorem logData_open {l : DataGeneratorLogger} {sink : FileSink} (h : l.logStream = some sink)
    (data : List UInt8) :
    ∃ (next : DataGeneratorLogger) (write : Option (List UInt8) → Option (List UInt8)),
      (fun fs => l.logData fs data) = fun fs : FileSystem =>
        (next, fs.set sink.path (write (fs sink.path))) := by
  refine ⟨{ l with logStream := some ⟨sink.path, sink.position + data.length⟩ }, fun old =>
    some ((old.getD []).take sink.position ++ data ++
      (old.getD []).drop (sink.position + data.length)), ?_⟩
  funext fs
  rw [logData, h]
  rfl

theorem logData_closed {l : DataGeneratorLogger} (h : l.logStream = none) (data : List UInt8) :
    (fun fs => l.logData fs data) = fun fs => (l, fs) := by
  funext fs
  rw [logData, h]

theorem logData_local (l : DataGeneratorLogger) (data : List UInt8) :
    Local fun fs => l.logData fs data := by
  cases hstream : l.logStream with
  | none =>
      rw [logData_closed hstream]
      exact Local.pure l
  | some sink =>
      obtain ⟨next, write, heq⟩ := logData_open hstream data
      rw [heq]
      exact local_set sink.path next write

theorem logData_keeps {l : DataGeneratorLogger} {f : String}
    (h : ∀ sink ∈ l.logStream, sink.path ≠ f) (data : List UInt8) :
    Keeps (fun fs => l.logData fs data) f := by
  cases hstream : l.logStream with
  | none =>
      rw [logData_closed hstream]
      exact Keeps.pure l f
  | some sink =>
      obtain ⟨next, write, heq⟩ := logData_open hstream data
      rw [heq]
      exact keeps_set (Ne.symm (h sink hstream)) next write

end DataGeneratorLogger

theorem StackFrameLogger.startingFuzzRun_eq (l : StackFrameLogger)
    (stackFrameInfo : Option StackFrameInfo) :
    l.startingFuzzRun stackFrameInfo = fun fs => fs.set (buildLogFile l.path l.runPrefix)
      (some (stackFrameInfo.elim [] fun info =>
        writeTypedStreamSerializable "gdb_stack_frame_info" (stackFrameInfoWrite info))) := by
  funext fs
  unfold startingFuzzRun
  dsimp only
  rw [FileSystem.openWrite_deleted]
  cases stackFrameInfo with
  | none => rfl
  | some info =>
      dsimp only
      rw [FileSink.write_end (FileSystem.set_self _ _ _) rfl, FileSystem.set_set, List.nil_append]
      rfl

namespace RemotePipeLogger

variable {l : RemotePipeLogger UInt8}

/-- The close of the sink, if there is one. -/
def closeSink (l : RemotePipeLogger UInt8) (fs : FileSystem) : Unit × FileSystem :=
  ((), l.sink.elim fs fun sink => fs.set sink.file (some sink.written.flatten))

theorem closeSink_local (l : RemotePipeLogger UInt8) : Local l.closeSink := by
  unfold closeSink
  cases l.sink with
  | none => exact Local.pure ()
  | some sink => exact local_set _ () fun _ => some sink.written.flatten

theorem closeSink_keeps {f : String} (h : ∀ sink ∈ l.sink, sink.file ≠ f) :
    Keeps l.closeSink f := by
  unfold closeSink
  cases hsink : l.sink with
  | none => exact Keeps.pure () f
  | some sink => exact keeps_set (Ne.symm (h sink hsink)) () fun _ => some sink.written.flatten

/-- The sink is closed, and the new file is empty. -/
theorem startingFuzzRun_eq (l : RemotePipeLogger UInt8) :
    (l.startingFuzzRun : FileSystem → RemotePipeLogger UInt8 × FileSystem) =
      andThen l.closeSink fun _ fs =>
        ({ l with sink := some ⟨buildLogFile l.path l.runPrefix, []⟩ },
          FileSystem.set fs (buildLogFile l.path l.runPrefix) (some [])) := by
  funext fs
  rw [startingFuzzRun, andThen, FileSystem.set_eq_update, closeSink]
  cases l.sink with
  | none => rfl
  | some sink =>
      rw [Option.elim_some, FileSystem.set_eq_update]
      rfl

theorem startingFuzzRun_local (l : RemotePipeLogger UInt8) :
    Local (l.startingFuzzRun : FileSystem → RemotePipeLogger UInt8 × FileSystem) := by
  rw [startingFuzzRun_eq]
  exact (closeSink_local l).andThen fun _ => local_set _ _ fun _ => some []

theorem finishedFuzzRun_eq {sink : StreamWriter UInt8} (h : l.sink = some sink) (fs : FileSystem) :
    l.finishedFuzzRun fs = .ok ({ l with sink := none }, (l.closeSink fs).2) := by
  rw [RemotePipeLogger.finishedFuzzRun, closeSink, h, Option.elim_some, FileSystem.set_eq_update]
  rfl

/-- The packet goes to the open file, or nowhere. -/
theorem handlerPipeData_cases (passed : List Nat → Nat) (l : RemotePipeLogger UInt8)
    (pipeName : String) (data : List UInt8) (index offset : Nat) :
    (∀ fs : FileSystem, l.handlerPipeData passed asciiText fs pipeName data index offset = (l, fs)) ∨
      ∃ sink sink' : StreamWriter UInt8, l.sink = some sink ∧ sink'.file = sink.file ∧
        ∀ fs : FileSystem, l.handlerPipeData passed asciiText fs pipeName data index offset =
          ({ l with sink := some sink' }, fs.set sink.file (some (sink'.flushed passed))) := by
  unfold handlerPipeData
  by_cases hlogs : Logs l.logPipeNames pipeName
  · simp only [if_pos hlogs]
    cases l.sink with
    | none => exact Or.inl fun fs => rfl
    | some sink =>
        refine Or.inr ⟨sink, sink.write (asciiText ((data.drop index).take offset)), rfl, rfl,
          fun fs => ?_⟩
        rw [FileSystem.set_eq_update]
        rfl
  · simp only [if_neg hlogs]
    exact Or.inl fun fs => trivial

theorem handlerPipeData_local (passed : List Nat → Nat) (l : RemotePipeLogger UInt8)
    (pipeName : String) (data : List UInt8) (index offset : Nat) : Local fun fs : FileSystem =>
      l.handlerPipeData passed asciiText fs pipeName data index offset := by
  rcases l.handlerPipeData_cases passed pipeName data index offset with
    hnone | ⟨sink, sink', -, -, hsome⟩
  · simp only [hnone]
    exact Local.pure l
  · simp only [hsome]
    exact local_set sink.file _ fun _ => some (sink'.flushed passed)

theorem handlerPipeData_keeps {f : String} (h : ∀ sink ∈ l.sink, sink.file ≠ f)
    (passed : List Nat → Nat) (pipeName : String) (data : List UInt8) (index offset : Nat) :
    Keeps (fun fs : FileSystem =>
      l.handlerPipeData passed asciiText fs pipeName data index offset) f := by
  rcases l.handlerPipeData_cases passed pipeName data index offset with
    hnone | ⟨sink, sink', hsink, -, hsome⟩
  · simp only [hnone]
    exact Keeps.pure l f
  · simp only [hsome]
    exact keeps_set (Ne.symm (h sink hsink)) _ fun _ => some (sink'.flushed passed)

/-- Data does not change the file of the sink. -/
theorem handlerPipeData_logger (passed : List Nat → Nat) (l : RemotePipeLogger UInt8)
    (pipeName : String) (data : List UInt8) (index offset : Nat) (fs : FileSystem) :
    let logged := (l.handlerPipeData passed asciiText fs pipeName data index offset).1
    logged.path = l.path ∧
      logged.sink.map StreamWriter.file = l.sink.map StreamWriter.file := by
  rcases l.handlerPipeData_cases passed pipeName data index offset with
    hnone | ⟨sink, sink', hsink, hfile, hsome⟩
  · rw [hnone]
    exact ⟨rfl, rfl⟩
  · rw [hsome, hsink]
    exact ⟨rfl, congrArg some hfile⟩

end RemotePipeLogger

/-! ## All loggers -/

section

variable {σ : Type} {op : σ → FileSystem → σ × FileSystem} {f : String}

theorem forLogger_local (h : ∀ l, Local (op l)) (o : Option σ) : Local (forLogger op o) := by
  cases o with
  | none => exact Local.pure none
  | some l => exact (h l).andThen fun s => Local.pure (some s)

theorem forLogger_keeps {o : Option σ} (h : ∀ l ∈ o, Keeps (op l) f) :
    Keeps (forLogger op o) f := by
  cases o with
  | none => exact Keeps.pure none f
  | some l => exact (h l rfl).andThen fun m => Keeps.pure _ f

theorem forLogger_resets {l : σ} (h : Resets (op l) f) : Resets (forLogger op (some l)) f := h

end

namespace LoggerCollection

/-- The files that the enabled loggers start. -/
def files (c : LoggerCollection) : List String :=
  (c.dataGeneratorLogger.map fun l => buildLogFile l.path l.runPrefix).toList ++
    (c.stackFrameLogger.map fun l => StackFrameLogger.buildLogFile l.path l.runPrefix).toList ++
      (c.remotePipeLogger.map fun l => RemotePipeLogger.buildLogFile l.path l.runPrefix).toList

/-- No logger writes to the file. -/
structure Away (f : String) (c : LoggerCollection) : Prop where
  data : ∀ l ∈ c.dataGeneratorLogger, ∀ sink ∈ l.logStream, sink.path ≠ f
  pipe : ∀ l ∈ c.remotePipeLogger, ∀ sink ∈ l.sink, sink.file ≠ f

variable {c : LoggerCollection} {f : String}

theorem mem_files_data {l : DataGeneratorLogger} (h : c.dataGeneratorLogger = some l) :
    buildLogFile l.path l.runPrefix ∈ c.files := by
  simp [files, h]

theorem mem_files_frame {l : StackFrameLogger} (h : c.stackFrameLogger = some l) :
    StackFrameLogger.buildLogFile l.path l.runPrefix ∈ c.files := by
  simp [files, h]

theorem mem_files_pipe {l : RemotePipeLogger UInt8} (h : c.remotePipeLogger = some l) :
    RemotePipeLogger.buildLogFile l.path l.runPrefix ∈ c.files := by
  simp [files, h]

theorem startingFuzzRun_andThen (c : LoggerCollection) (stackFrameInfo : Option StackFrameInfo) :
    c.startingFuzzRun stackFrameInfo =
      andThen (forLogger DataGeneratorLogger.startingFuzzRun c.dataGeneratorLogger) fun data =>
        andThen (forLogger (fun l fs => (l, l.startingFuzzRun stackFrameInfo fs))
          c.stackFrameLogger) fun frame =>
            andThen (forLogger RemotePipeLogger.startingFuzzRun c.remotePipeLogger) fun pipe fs =>
              (⟨data, frame, pipe⟩, fs) := rfl

theorem frame_local (stackFrameInfo : Option StackFrameInfo) (o : Option StackFrameLogger) :
    Local (forLogger (fun l fs => (l, l.startingFuzzRun stackFrameInfo fs)) o) := by
  apply forLogger_local
  intro l
  rw [StackFrameLogger.startingFuzzRun_eq]
  exact local_set _ l fun _ => some _

theorem pipe_local (o : Option (RemotePipeLogger UInt8)) :
    Local (forLogger RemotePipeLogger.startingFuzzRun o : FileSystem → _) :=
  forLogger_local RemotePipeLogger.startingFuzzRun_local o

theorem startingFuzzRun_local (c : LoggerCollection) (stackFrameInfo : Option StackFrameInfo) :
    Local (c.startingFuzzRun stackFrameInfo) := by
  rw [startingFuzzRun_andThen]
  apply (forLogger_local DataGeneratorLogger.startingFuzzRun_local _).andThen
  intro data
  apply (frame_local stackFrameInfo _).andThen
  intro frame
  apply (pipe_local _).andThen
  intro pipe
  exact Local.pure _

theorem startingFuzzRun_keeps (h : f ∉ c.files) (haway : c.Away f)
    (stackFrameInfo : Option StackFrameInfo) : Keeps (c.startingFuzzRun stackFrameInfo) f := by
  obtain ⟨data, frame, pipe⟩ := c
  simp only [files, List.mem_append, not_or, Option.mem_toList, Option.map_eq_some_iff, not_exists,
    not_and] at h
  obtain ⟨⟨hdata, hframe⟩, hpipe⟩ := h
  rw [startingFuzzRun_andThen]
  -- each logger writes its own file alone
  have hdata' : Keeps (forLogger DataGeneratorLogger.startingFuzzRun data) f := by
    apply forLogger_keeps
    intro l hl
    rw [DataGeneratorLogger.startingFuzzRun_eq]
    exact keeps_set (Ne.symm (hdata l hl)) _ fun _ => some []
  have hframe' : Keeps (forLogger (fun l fs => (l, l.startingFuzzRun stackFrameInfo fs)) frame)
      f := by
    apply forLogger_keeps
    intro l hl
    rw [StackFrameLogger.startingFuzzRun_eq]
    exact keeps_set (Ne.symm (hframe l hl)) l fun _ => some _
  have hpipe' : Keeps (forLogger RemotePipeLogger.startingFuzzRun pipe : FileSystem → _) f := by
    apply forLogger_keeps
    intro l hl
    rw [RemotePipeLogger.startingFuzzRun_eq]
    exact (RemotePipeLogger.closeSink_keeps (haway.pipe l hl)).andThen fun _ =>
      keeps_set (Ne.symm (hpipe l hl)) _ fun _ => some []
  exact hdata'.andThen fun _ => hframe'.andThen fun _ => hpipe'.andThen fun _ => Keeps.pure _ f

theorem startingFuzzRun_resets (h : f ∈ c.files) (stackFrameInfo : Option StackFrameInfo) :
    Resets (c.startingFuzzRun stackFrameInfo) f := by
  obtain ⟨data, frame, pipe⟩ := c
  simp only [files, List.mem_append, Option.mem_toList, Option.map_eq_some_iff] at h
  rw [startingFuzzRun_andThen]
  have hdata := forLogger_local DataGeneratorLogger.startingFuzzRun_local data
  have hframe := frame_local stackFrameInfo frame
  have hpipe := pipe_local pipe
  rcases h with (⟨l, rfl, rfl⟩ | ⟨l, rfl, rfl⟩) | ⟨l, rfl, rfl⟩
  · refine Resets.andThen (forLogger_resets ?_) hdata fun _ =>
      hframe.andThen fun _ => hpipe.andThen fun _ => Local.pure _
    rw [DataGeneratorLogger.startingFuzzRun_eq]
    exact resets_set _ _ _
  · refine Resets.behind hdata fun _ =>
      Resets.andThen (forLogger_resets ?_) hframe fun _ => hpipe.andThen fun _ => Local.pure _
    rw [StackFrameLogger.startingFuzzRun_eq]
    exact resets_set _ _ _
  · refine Resets.behind hdata fun _ => Resets.behind hframe fun _ =>
      Resets.andThen (forLogger_resets ?_) hpipe fun _ => Local.pure _
    rw [RemotePipeLogger.startingFuzzRun_eq]
    exact Resets.behind (RemotePipeLogger.closeSink_local l) fun _ => resets_set _ _ _

theorem logData_local (c : LoggerCollection) (data : List UInt8) : Local (c.logData data) := by
  have hlocal := forLogger_local (fun l : DataGeneratorLogger => l.logData_local data)
    c.dataGeneratorLogger
  exact hlocal.andThen fun s => Local.pure { c with dataGeneratorLogger := s }

theorem logData_keeps (h : c.Away f) (data : List UInt8) : Keeps (c.logData data) f := by
  have hkeeps := forLogger_keeps fun l hl => DataGeneratorLogger.logData_keeps (h.data l hl) data
  exact hkeeps.andThen fun _ => Keeps.pure _ f

theorem handlerPipeData_local (passed : List Nat → Nat) (c : LoggerCollection) (pipeName : String)
    (data : List UInt8) (index offset : Nat) :
    Local (c.handlerPipeData passed pipeName data index offset) := by
  have hlocal := forLogger_local (fun l : RemotePipeLogger UInt8 =>
    l.handlerPipeData_local passed pipeName data index offset) c.remotePipeLogger
  exact hlocal.andThen fun s => Local.pure { c with remotePipeLogger := s }

theorem handlerPipeData_keeps (h : c.Away f) (passed : List Nat → Nat) (pipeName : String)
    (data : List UInt8) (index offset : Nat) :
    Keeps (c.handlerPipeData passed pipeName data index offset) f := by
  have hkeeps := forLogger_keeps fun l hl =>
    RemotePipeLogger.handlerPipeData_keeps (h.pipe l hl) passed pipeName data index offset
  exact hkeeps.andThen fun _ => Keeps.pure _ f

/-! ## What becomes of the loggers -/

@[simp] theorem setPrefix_setPrefix (p q : String) (c : LoggerCollection) :
    (c.setPrefix p).setPrefix q = c.setPrefix q := by
  obtain ⟨data, frame, pipe⟩ := c
  cases data <;> cases frame <;> cases pipe <;> rfl

@[simp] theorem startingFuzzRun_files (c : LoggerCollection) (p : String)
    (stackFrameInfo : Option StackFrameInfo) (fs : FileSystem) :
    ((c.startingFuzzRun stackFrameInfo fs).1.setPrefix p).files = (c.setPrefix p).files := by
  obtain ⟨data, frame, pipe⟩ := c
  cases data <;> cases frame <;> cases pipe <;> rfl

theorem startingFuzzRun_away (h : f ∉ c.files) (stackFrameInfo : Option StackFrameInfo)
    (fs : FileSystem) : (c.startingFuzzRun stackFrameInfo fs).1.Away f := by
  obtain ⟨data, frame, pipe⟩ := c
  simp only [files, List.mem_append, not_or, Option.mem_toList, Option.map_eq_some_iff, not_exists,
    not_and] at h
  obtain ⟨⟨hdata, -⟩, hpipe⟩ := h
  refine ⟨?_, ?_⟩
  · intro l hl sink hsink
    cases data with
    | none => cases hl
    | some old =>
        cases hl
        cases hsink
        exact hdata old rfl
  · intro l hl sink hsink
    cases pipe with
    | none => cases hl
    | some old =>
        cases hl
        cases hsink
        exact hpipe old rfl

theorem startingFuzzRun_pipe (c : LoggerCollection) (stackFrameInfo : Option StackFrameInfo)
    (fs : FileSystem) :
    ∀ l ∈ (c.startingFuzzRun stackFrameInfo fs).1.remotePipeLogger, l.sink.isSome = true := by
  obtain ⟨data, frame, pipe⟩ := c
  intro l hl
  cases pipe with
  | none => cases hl
  | some old =>
      cases hl
      rfl

/-- What a finish does, with a sink or without pipes. -/
structure Finishes (c : LoggerCollection) (op : FileSystem → LoggerCollection × FileSystem) :
    Prop where
  places : Local op
  keeps : ∀ f, c.Away f → Keeps op f
  files : ∀ fs p, ((op fs).1.setPrefix p).files = (c.setPrefix p).files
  away : ∀ fs f, (op fs).1.Away f

theorem finishedFuzzRun_ok (h : ∀ l ∈ c.remotePipeLogger, l.sink.isSome = true) :
    ∃ op, (∀ fs, c.finishedFuzzRun fs = .ok (op fs)) ∧ c.Finishes op := by
  obtain ⟨data, frame, pipe⟩ := c
  have hclosed : ∀ l ∈ data.map DataGeneratorLogger.finishedFuzzRun, l.logStream = none := by
    intro l hl
    obtain ⟨old, -, rfl⟩ := Option.map_eq_some_iff.mp hl
    rfl
  have hdata : ∀ f, ∀ l ∈ data.map DataGeneratorLogger.finishedFuzzRun, ∀ sink ∈ l.logStream,
      sink.path ≠ f := by
    intro f l hl sink hsink
    rw [hclosed l hl] at hsink
    cases hsink
  cases pipe with
  | none =>
      refine ⟨fun fs => (⟨data.map DataGeneratorLogger.finishedFuzzRun, frame, none⟩, fs),
        fun _ => rfl, Local.pure _, fun f _ => Keeps.pure _ f, ?_, ?_⟩
      · intro fs p
        cases data <;> cases frame <;> rfl
      · exact fun fs f => ⟨hdata f, fun l hl => by cases hl⟩
  | some old =>
      obtain ⟨sink, hsink⟩ := Option.isSome_iff_exists.mp (h old rfl)
      refine ⟨andThen old.closeSink fun _ fs =>
          (⟨data.map DataGeneratorLogger.finishedFuzzRun, frame, some { old with sink := none }⟩, fs),
        ?_, old.closeSink_local.andThen fun _ => Local.pure _, ?_, ?_, ?_⟩
      · intro fs
        rw [finishedFuzzRun]
        dsimp only
        rw [RemotePipeLogger.finishedFuzzRun_eq hsink]
        rfl
      · exact fun f haway => (RemotePipeLogger.closeSink_keeps (haway.pipe old rfl)).andThen fun _ =>
          Keeps.pure _ f
      · intro fs p
        cases data <;> cases frame <;> rfl
      · refine fun fs f => ⟨hdata f, fun l hl sink hopen => ?_⟩
        cases hl
        cases hopen

@[simp] theorem logData_pipe (c : LoggerCollection) (data : List UInt8) (fs : FileSystem) :
    (c.logData data fs).1.remotePipeLogger = c.remotePipeLogger := rfl

@[simp] theorem handlerPipeData_files (passed : List Nat → Nat) (c : LoggerCollection)
    (pipeName : String) (data : List UInt8) (index offset : Nat) (p : String) (fs : FileSystem) :
    ((c.handlerPipeData passed pipeName data index offset fs).1.setPrefix p).files =
      (c.setPrefix p).files := by
  obtain ⟨generator, frame, pipe⟩ := c
  cases pipe with
  | none => rfl
  | some l =>
      obtain ⟨hpath, -⟩ := l.handlerPipeData_logger passed pipeName data index offset fs
      simp only [handlerPipeData, forLogger, setPrefix, files, Option.map_some, hpath]

theorem handlerPipeData_pipe (h : ∀ l ∈ c.remotePipeLogger, l.sink.isSome = true)
    (passed : List Nat → Nat) (pipeName : String) (data : List UInt8) (index offset : Nat)
    (fs : FileSystem) :
    ∀ l ∈ (c.handlerPipeData passed pipeName data index offset fs).1.remotePipeLogger,
      l.sink.isSome = true := by
  obtain ⟨generator, frame, pipe⟩ := c
  intro l hl
  cases pipe with
  | none => cases hl
  | some old =>
      cases hl
      obtain ⟨-, hfile⟩ := old.handlerPipeData_logger passed pipeName data index offset fs
      have hsome := congrArg Option.isSome hfile
      rw [Option.isSome_map, Option.isSome_map] at hsome
      exact hsome.trans (h old rfl)

theorem handlerPipeData_away (h : c.Away f) (passed : List Nat → Nat) (pipeName : String)
    (data : List UInt8) (index offset : Nat) (fs : FileSystem) :
    (c.handlerPipeData passed pipeName data index offset fs).1.Away f := by
  refine ⟨h.data, ?_⟩
  obtain ⟨generator, frame, pipe⟩ := c
  intro l hl sink hsink
  cases pipe with
  | none => cases hl
  | some old =>
      cases hl
      obtain ⟨-, hfile⟩ := old.handlerPipeData_logger passed pipeName data index offset fs
      have hname := congrArg (Option.map StreamWriter.file) (Option.mem_def.mp hsink)
      rw [hfile] at hname
      obtain ⟨sink', hsink', heq⟩ := Option.map_eq_some_iff.mp hname
      rw [← heq]
      exact h.pipe old rfl sink' hsink'

theorem setPrefix_away (h : c.Away f) (p : String) : (c.setPrefix p).Away f := by
  constructor
  · intro l hl
    obtain ⟨old, hold, rfl⟩ := Option.map_eq_some_iff.mp hl
    exact h.data old hold
  · intro l hl
    obtain ⟨old, hold, rfl⟩ := Option.map_eq_some_iff.mp hl
    exact h.pipe old hold

theorem logData_logger {l : DataGeneratorLogger} (data : List UInt8) (fs : FileSystem) :
    (l.logData fs data).1.path = l.path ∧ (l.logData fs data).1.runPrefix = l.runPrefix ∧
      (l.logData fs data).1.logStream.map FileSink.path = l.logStream.map FileSink.path := by
  rw [DataGeneratorLogger.logData]
  cases hstream : l.logStream with
  | none => exact ⟨rfl, rfl, by rw [hstream]⟩
  | some sink => exact ⟨rfl, rfl, rfl⟩

@[simp] theorem logData_files (c : LoggerCollection) (data : List UInt8) (p : String)
    (fs : FileSystem) : ((c.logData data fs).1.setPrefix p).files = (c.setPrefix p).files := by
  obtain ⟨generator, frame, pipe⟩ := c
  cases generator with
  | none => rfl
  | some l =>
      obtain ⟨hpath, -, -⟩ := @logData_logger l data fs
      simp only [logData, forLogger, setPrefix, files, Option.map_some, hpath]

theorem logData_away (h : c.Away f) (data : List UInt8) (fs : FileSystem) :
    (c.logData data fs).1.Away f := by
  refine ⟨?_, h.pipe⟩
  obtain ⟨generator, frame, pipe⟩ := c
  intro l hl sink hsink
  cases generator with
  | none => cases hl
  | some old =>
      cases hl
      obtain ⟨-, -, hstream⟩ := @logData_logger old data fs
      have hpath := congrArg (Option.map FileSink.path) (Option.mem_def.mp hsink)
      rw [hstream] at hpath
      obtain ⟨sink', hsink', heq⟩ := Option.map_eq_some_iff.mp hpath
      rw [← heq]
      exact h.data old rfl sink' hsink'

/-! ## Error logs -/

/-- A log file ends like its extension. -/
theorem logFile_getLast? (path : String) (runPrefix : Option String) {extension current : String}
    {last : Char} (hextension : extension.toList.getLast? = some last)
    (hcurrent : current.toList.getLast? = some last) :
    (pathCombine path (match runPrefix with
      | some p => if p ≠ "" then p ++ extension else current
      | none => current)).toList.getLast? = some last := by
  apply pathCombine_getLast?
  cases runPrefix with
  | none => exact hcurrent
  | some p =>
      dsimp only
      split
      · rw [String.toList_append, List.getLast?_append, hextension, Option.some_or]
      · exact hcurrent

/-- None of the files is an error log. -/
theorem errorLog_not_mem_files (c : LoggerCollection) (path : String) (runPrefix : Option String) :
    ErrorLog.buildLogFile path runPrefix ∉ c.files := by
  have herror : (ErrorLog.buildLogFile path runPrefix).toList.getLast? = some 'g' :=
    logFile_getLast? path runPrefix rfl rfl
  -- the extensions have different last characters
  intro hmem
  simp only [files, List.mem_append, Option.mem_toList, Option.map_eq_some_iff] at hmem
  rcases hmem with (⟨l, -, hl⟩ | ⟨l, -, hl⟩) | ⟨l, -, hl⟩
  · have hdata : (buildLogFile l.path l.runPrefix).toList.getLast? = some 'a' :=
      logFile_getLast? l.path l.runPrefix rfl rfl
    rw [hl, herror] at hdata
    cases hdata
  · have hframe : (StackFrameLogger.buildLogFile l.path l.runPrefix).toList.getLast? = some 'o' :=
      logFile_getLast? l.path l.runPrefix rfl rfl
    rw [hl, herror] at hframe
    cases hframe
  · have hpipe : (RemotePipeLogger.buildLogFile l.path l.runPrefix).toList.getLast? = some 's' :=
      logFile_getLast? l.path l.runPrefix rfl rfl
    rw [hl, herror] at hpipe
    cases hpipe

end LoggerCollection

end InMemoryFuzzing.DataLog

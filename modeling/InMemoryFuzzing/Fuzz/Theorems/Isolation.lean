import InMemoryFuzzing.Fuzz.Loggers
import InMemoryFuzzing.Fuzz.Sessions
import InMemoryFuzzing.Fuzz.Theorems.Logging

/-!
# Two sessions in one directory

The data loggers start the files of a run anew, the error log does not. The files of the second
session are those of a session in an empty directory if and only if it has an error of its own
wherever the first one had one (`session_isolated_iff`).
-/

namespace InMemoryFuzzing.Fuzz

open Base Platform DotNet DataLog Analyzers

variable {W S L W' S' L' : Type}

/-! ## Sessions -/

/-- A session of the controller, and what its loggers are told; the loggers are those that are
enabled. -/
structure Session (W S L : Type) where
  env : Environment W S L
  bps : Breakpoints
  stops : List DebuggerStop
  fuzzLocation : List L
  lastDebuggerStop : Option DebuggerStop
  world : W
  dataGenLogger : Bool
  stackFrameLogger : Bool
  remotePipeLogger : Option (List String)
  /-- What the buffers of a `StreamWriter` have passed on. -/
  passed : List Nat → Nat
  events : List LogEvent

namespace Session

/-- `InitLoggers`. -/
def loggers (s : Session W S L) (path : String) : LoggerCollection where
  dataGeneratorLogger := if s.dataGenLogger then some ⟨path, none, none⟩ else none
  stackFrameLogger := if s.stackFrameLogger then some ⟨path, none⟩ else none
  remotePipeLogger := s.remotePipeLogger.map fun logPipeNames => ⟨logPipeNames, path, none, none⟩

/-- `Fuzz` in a directory. -/
def controller [DecidableEq L] (s : Session W S L) (path : String) (files : FileSystem) :
    Except NetException (FuzzState W S L × List DebuggerStop) :=
  fuzz s.env s.bps s.stops (initialState path s.fuzzLocation s.lastDebuggerStop files s.world)

/-- The session takes the files from `before` to `after`. The controller writes error logs and
the loggers all other files, so it does not matter in which order they do. -/
def Runs [DecidableEq L] (s : Session W S L) (path : String) (before : FileSystem)
    (examined : List DebuggerStop) (after : FileSystem) : Prop :=
  ∃ st loggers, s.controller path before = .ok (st, examined) ∧
    logCalls s.events = st.dataLogger.calls ∧
      LoggerRun.run s.passed (s.loggers path) st.fs s.events = .ok (loggers, after)

end Session

/-- A run with this prefix has ended with an error. -/
def EndedWithError (bps : Breakpoints) (examined : List DebuggerStop) (runPrefix : String) : Prop :=
  ∃ k stop, (runEnds bps examined)[k]? = some stop ∧ prefixText (k + 1) = runPrefix ∧
    stop.stopReason ≠ .breakpoint

/-- The logs of a run are the same, and so is what the analyzer says. -/
structure SameLogs (s : Session W S L) (path runPrefix : String) (fs fs' : FileSystem) : Prop where
  errorlog : fs (ErrorLog.buildLogFile path (some runPrefix)) =
    fs' (ErrorLog.buildLogFile path (some runPrefix))
  fuzzdata : s.dataGenLogger = true →
    fs (buildLogFile path (some runPrefix)) = fs' (buildLogFile path (some runPrefix))
  stackframeinfo : s.stackFrameLogger = true →
    fs (StackFrameLogger.buildLogFile path (some runPrefix)) =
      fs' (StackFrameLogger.buildLogFile path (some runPrefix))
  pipes : s.remotePipeLogger.isSome = true →
    fs (RemotePipeLogger.buildLogFile path (some runPrefix)) =
      fs' (RemotePipeLogger.buildLogFile path (some runPrefix))
  report : analyzeProgramError fs path runPrefix = analyzeProgramError fs' path runPrefix

/-! ## Error logs -/

/-- The error log of a run that ended with an error. -/
theorem lastError_isSome_iff (bps : Breakpoints) (examined : List DebuggerStop) (path : String)
    (k : Nat) :
    (lastError path (runEnds bps examined)
      (ErrorLog.buildLogFile path (some (prefixText k)))).isSome = true ↔
        EndedWithError bps examined (prefixText k) := by
  rw [lastError, Option.isSome_map, List.find?_isSome]
  constructor
  · rintro ⟨⟨stop, i⟩, hmem, herror⟩
    rw [List.mem_reverse, List.mk_mem_zipIdx_iff_le_and_getElem?_sub] at hmem
    simp only [Bool.and_eq_true, decide_eq_true_eq] at herror
    have hsucc : i - 1 + 1 = i := Nat.sub_add_cancel hmem.1
    refine ⟨i - 1, stop, hmem.2, ?_, herror.1⟩
    rw [hsucc]
    exact congrArg toString (errorLog_injective herror.2)
  · rintro ⟨i, stop, hends, hprefix, herror⟩
    refine ⟨(stop, i + 1), ?_, ?_⟩
    · rw [List.mem_reverse, List.mk_mem_zipIdx_iff_le_and_getElem?_sub]
      exact ⟨Nat.le_add_left 1 i, hends⟩
    · simp [herror, hprefix]

/-- A record has the same length as the next one, so the last record is all that is left. -/
theorem errorContent_eq_iff (first second : Option DebuggerStop) :
    errorContent (errorContent none first) second = errorContent none second ↔
      second.isSome = true ∨ ¬first.isSome = true := by
  cases second with
  | some stop =>
      simp only [Option.isSome_some, true_or, iff_true]
      exact errorContent_append none first stop
  | none =>
      cases first with
      | none => simp [errorContent]
      | some stop => simp [errorContent]

/-- The analyzer reads the error log of the run alone. -/
theorem analyzeProgramError_congr {fs fs' : FileSystem} {path : String} {k : Nat}
    (h : fs (ErrorLog.buildLogFile path (some (prefixText k))) =
      fs' (ErrorLog.buildLogFile path (some (prefixText k)))) :
    analyzeProgramError fs path (prefixText k) = analyzeProgramError fs' path (prefixText k) := by
  rw [errorLog_prefixText] at h
  rw [analyzeProgramError, analyzeProgramError, FileSystem.openRead, FileSystem.openRead, h]

/-! ## One session -/

section

variable [DecidableEq L] {s : Session W S L} {path : String} {before after : FileSystem}
  {examined : List DebuggerStop}

omit [DecidableEq L] in
theorem Session.setPrefix_data (h : s.dataGenLogger = true) (path p : String) :
    ((s.loggers path).setPrefix p).dataGeneratorLogger = some ⟨path, some p, none⟩ := by
  rw [LoggerCollection.setPrefix, loggers, h]
  rfl

omit [DecidableEq L] in
theorem Session.setPrefix_frame (h : s.stackFrameLogger = true) (path p : String) :
    ((s.loggers path).setPrefix p).stackFrameLogger = some ⟨path, some p⟩ := by
  rw [LoggerCollection.setPrefix, loggers, h]
  rfl

omit [DecidableEq L] in
theorem Session.setPrefix_pipe {names : List String} (h : s.remotePipeLogger = some names)
    (path p : String) :
    ((s.loggers path).setPrefix p).remotePipeLogger = some ⟨names, path, some p, none⟩ := by
  rw [LoggerCollection.setPrefix, loggers, h]
  rfl

omit [DecidableEq L] in
theorem loggers_ready (s : Session W S L) (path : String) :
    LoggersReady false (fun p => ((s.loggers path).setPrefix p).files) (s.loggers path) := by
  refine ⟨fun p => rfl, fun _ q => ⟨?_, ?_⟩, ?_⟩
  · intro l hl sink hsink
    rw [Session.loggers] at hl
    dsimp only at hl
    split at hl
    · cases hl
      cases hsink
    · cases hl
  · intro l hl sink hsink
    obtain ⟨names, -, rfl⟩ := Option.map_eq_some_iff.mp hl
    cases hsink
  · intro h
    cases h

/-- The loggers of a session do the same in every directory. -/
theorem Session.Runs.effect (h : s.Runs path before examined after) :
    ∃ op, (∀ fs, LoggerRun.run s.passed (s.loggers path) fs s.events = .ok (op fs)) ∧
      FileEffect (fun p => ((s.loggers path).setPrefix p).files) (logCalls s.events) op := by
  obtain ⟨st, loggers, hfuzz, hcalls, -⟩ := h
  apply run_op (loggers_ready s path)
  rw [hcalls, (session_loggers hfuzz).1.calls]
  exact runCalls_alternates _ _ _

/-- The error logs behind a session. -/
theorem Session.Runs.errorLog (h : s.Runs path before examined after) (k : Nat) :
    after (ErrorLog.buildLogFile path (some (prefixText k))) =
      errorContent (before (ErrorLog.buildLogFile path (some (prefixText k))))
        (lastError path (runEnds s.bps examined)
          (ErrorLog.buildLogFile path (some (prefixText k)))) := by
  obtain ⟨op, hop, heffect⟩ := h.effect
  obtain ⟨st, loggers, hfuzz, hcalls, hrun⟩ := h
  rw [hop] at hrun
  have hafter : (op st.fs).2 = after := congrArg Prod.snd (Except.ok.inj hrun)
  rw [← (session_loggers hfuzz).1.files, ← hafter]
  exact heffect.keeps path _ st.fs

/-- A session that has been in one directory can be in another one. -/
theorem Session.Runs.another (h : s.Runs path before examined after) (before' : FileSystem) :
    ∃ after', s.Runs path before' examined after' := by
  obtain ⟨op, hop, -⟩ := h.effect
  obtain ⟨st, loggers, hfuzz, hcalls, -⟩ := h
  obtain ⟨fs', hfuzz'⟩ := fuzz_fs hfuzz before'
  exact ⟨(op fs').2, _, (op fs').1, hfuzz', hcalls, hop fs'⟩

/-- A session whose loggers are told of the calls of the controller. -/
theorem Session.runs_of_calls {st : FuzzState W S L}
    (hfuzz : s.controller path before = .ok (st, examined))
    (hcalls : logCalls s.events = st.dataLogger.calls) :
    ∃ after, s.Runs path before examined after := by
  have halternates : Alternates false (logCalls s.events) := by
    rw [hcalls, (session_loggers hfuzz).1.calls]
    exact runCalls_alternates _ _ _
  obtain ⟨op, hop, -⟩ := run_op (loggers_ready s path) halternates
  exact ⟨(op st.fs).2, st, (op st.fs).1, hfuzz, hcalls, hop st.fs⟩

/-- The files of a run that has been finished do not depend on the directory. -/
theorem Session.Runs.files {before' after' : FileSystem} (h : s.Runs path before examined after)
    (h' : s.Runs path before' examined after') {k : Nat} (hk : 1 ≤ k)
    (hle : k ≤ (runEnds s.bps examined).length) {f : String}
    (hf : f ∈ ((s.loggers path).setPrefix (prefixText k)).files) : after f = after' f := by
  obtain ⟨op, hop, heffect⟩ := h.effect
  obtain ⟨st, loggers, hfuzz, hcalls, hrun⟩ := h
  obtain ⟨st', loggers', hfuzz', hcalls', hrun'⟩ := h'
  rw [hop] at hrun hrun'
  have hafter : (op st.fs).2 = after := congrArg Prod.snd (Except.ok.inj hrun)
  have hafter' : (op st'.fs).2 = after' := congrArg Prod.snd (Except.ok.inj hrun')
  have hstarted : .startingFuzzRun (prefixText k) ∈ logCalls s.events := by
    rw [hcalls, (session_loggers hfuzz).1.calls]
    exact mem_runCalls hk hle
  rw [← hafter, ← hafter']
  exact heffect.resets _ hstarted f hf st.fs st'.fs

end

/-! ## Two sessions -/

section

variable [DecidableEq L] [DecidableEq L'] {s₁ : Session W S L} {s₂ : Session W' S' L'}
  {path : String} {files mid alone : FileSystem} {examined₁ examined₂ : List DebuggerStop}

theorem session_isolated_iff (hempty : EmptyDirectory path files)
    (h₁ : s₁.Runs path files examined₁ mid) (h₂ : s₂.Runs path files examined₂ alone) :
    (∃ after, s₂.Runs path mid examined₂ after) ∧
      ∀ after, s₂.Runs path mid examined₂ after →
        ∀ k, 1 ≤ k → k ≤ (runEnds s₂.bps examined₂).length →
          (SameLogs s₂ path (prefixText k) after alone ↔
            EndedWithError s₂.bps examined₂ (prefixText k) ∨
              ¬EndedWithError s₁.bps examined₁ (prefixText k)) := by
  refine ⟨h₂.another mid, fun after hafter k hk hle => ?_⟩
  -- the error log is the record of the last error under the prefix, in both sessions together
  have hnone : files (ErrorLog.buildLogFile path (some (prefixText k))) = none := by
    rw [errorLog_prefixText]
    exact hempty _ (errorLog_relative _)
  have herror : after (ErrorLog.buildLogFile path (some (prefixText k))) =
      alone (ErrorLog.buildLogFile path (some (prefixText k))) ↔
        EndedWithError s₂.bps examined₂ (prefixText k) ∨
          ¬EndedWithError s₁.bps examined₁ (prefixText k) := by
    rw [hafter.errorLog, h₁.errorLog, h₂.errorLog, hnone, errorContent_eq_iff,
      lastError_isSome_iff, lastError_isSome_iff]
  -- the other files do not depend on the directory
  have hfiles : ∀ f ∈ ((s₂.loggers path).setPrefix (prefixText k)).files, after f = alone f :=
    fun f hf => hafter.files h₂ hk hle hf
  rw [← herror]
  refine ⟨SameLogs.errorlog, fun h => ⟨h, ?_, ?_, ?_, analyzeProgramError_congr h⟩⟩
  · intro henabled
    have hmem := LoggerCollection.mem_files_data
      (Session.setPrefix_data henabled path (prefixText k))
    exact hfiles _ hmem
  · intro henabled
    have hmem := LoggerCollection.mem_files_frame
      (Session.setPrefix_frame henabled path (prefixText k))
    exact hfiles _ hmem
  · intro henabled
    obtain ⟨names, hnames⟩ := Option.isSome_iff_exists.mp henabled
    have hmem := LoggerCollection.mem_files_pipe
      (Session.setPrefix_pipe hnames path (prefixText k))
    exact hfiles _ hmem

end

/-- One run that ends with `stop`; all loggers are enabled. -/
def quietSession (stop : DebuggerStop) : Session Unit Unit Unit where
  env := quietEnvironment
  bps := ⟨0x1000, 0x2000⟩
  stops := [stop]
  fuzzLocation := [()]
  lastDebuggerStop := some snapshotStop
  world := ()
  dataGenLogger := true
  stackFrameLogger := true
  remotePipeLogger := some []
  passed := passedInBlocks
  events := [.startingFuzzRun (prefixText 1) none, .finishedFuzzRun (prefixText 1),
    .startingFuzzRun (prefixText 2) none]

theorem quietSession_runs (stop : DebuggerStop)
    (h : runEnds ⟨0x1000, 0x2000⟩ [snapshotStop, stop] = [stop]) :
    ∃ after, (quietSession stop).Runs "log" (fun _ => none) [snapshotStop, stop] after := by
  obtain ⟨st, hfuzz, hinv⟩ := quiet_session [stop]
  have hcalls := hinv.logged.calls
  rw [h] at hcalls
  exact Session.runs_of_calls (s := quietSession stop) hfuzz hcalls.symm

/-- Run 1 of the first session ends with a fault, and that of the second one with an exit. -/
theorem session_isolated_exit :
    ∃ mid alone after, (quietSession faultStop).Runs "log" (fun _ => none)
        [snapshotStop, faultStop] mid ∧
      (quietSession ⟨.exit, 0x1800, 1⟩).Runs "log" (fun _ => none)
        [snapshotStop, ⟨.exit, 0x1800, 1⟩] alone ∧
      (quietSession ⟨.exit, 0x1800, 1⟩).Runs "log" mid [snapshotStop, ⟨.exit, 0x1800, 1⟩] after ∧
      SameLogs (quietSession ⟨.exit, 0x1800, 1⟩) "log" (prefixText 1) after alone := by
  obtain ⟨mid, h₁⟩ := quietSession_runs faultStop rfl
  obtain ⟨alone, h₂⟩ := quietSession_runs ⟨.exit, 0x1800, 1⟩ rfl
  obtain ⟨⟨after, hafter⟩, hsame⟩ := session_isolated_iff (fun _ _ => rfl) h₁ h₂
  refine ⟨mid, alone, after, h₁, h₂, hafter, ?_⟩
  exact (hsame after hafter 1 (by simp) (by decide)).mpr
    (Or.inl ⟨0, ⟨.exit, 0x1800, 1⟩, rfl, rfl, by simp⟩)

/-- Run 1 of the second session is harmless, and is reported with the fault of the first one. -/
theorem stale_error_reported :
    ∃ mid alone after, (quietSession faultStop).Runs "log" (fun _ => none)
        [snapshotStop, faultStop] mid ∧
      (quietSession restoreStop).Runs "log" (fun _ => none) [snapshotStop, restoreStop] alone ∧
      (quietSession restoreStop).Runs "log" mid [snapshotStop, restoreStop] after ∧
      runEnds (quietSession restoreStop).bps [snapshotStop, restoreStop] = [restoreStop] ∧
      analyzeProgramError after "log" (prefixText 1) =
        .ok (some (programErrorReport (prefixText 1) faultStop)) ∧
      analyzeProgramError alone "log" (prefixText 1) = .ok none ∧
      ¬SameLogs (quietSession restoreStop) "log" (prefixText 1) after alone := by
  obtain ⟨mid, h₁⟩ := quietSession_runs faultStop rfl
  obtain ⟨alone, h₂⟩ := quietSession_runs restoreStop rfl
  obtain ⟨after, hafter⟩ := h₂.another mid
  have hfault : lastError "log" ([] ++ [faultStop])
      (ErrorLog.buildLogFile "log" (some (prefixText 1))) = some faultStop := by
    rw [lastError_append, if_pos ⟨by decide, rfl⟩]
  have hnone : lastError "log" ([] ++ [restoreStop])
      (ErrorLog.buildLogFile "log" (some (prefixText 1))) = none := by
    rw [lastError_append, if_neg (fun h => h.1 rfl)]
    rfl
  have hmid := h₁.errorLog 1
  have hafter' := hafter.errorLog 1
  have halone := h₂.errorLog 1
  change mid _ = errorContent none (lastError "log" ([] ++ [faultStop]) _) at hmid
  change after _ = errorContent (mid _) (lastError "log" ([] ++ [restoreStop]) _) at hafter'
  change alone _ = errorContent none (lastError "log" ([] ++ [restoreStop]) _) at halone
  rw [hfault] at hmid
  rw [hnone, hmid] at hafter'
  rw [hnone] at halone
  have hstale : after (pathCombine "log" (prefixText 1 ++ ".errorlog")) =
      some (errorRecord faultStop) := by
    rw [← errorLog_prefixText, hafter']
    simp [errorContent]
  have hempty : alone (pathCombine "log" (prefixText 1 ++ ".errorlog")) = none := by
    rw [← errorLog_prefixText, halone]
    rfl
  refine ⟨mid, alone, after, h₁, h₂, hafter, rfl, analyzeProgramError_record hstale, ?_, ?_⟩
  · rw [analyzeProgramError, FileSystem.openRead, hempty]
  · intro hsame
    have hsame' := hsame.errorlog
    rw [errorLog_prefixText, hstale, hempty] at hsame'
    cases hsame'

end InMemoryFuzzing.Fuzz

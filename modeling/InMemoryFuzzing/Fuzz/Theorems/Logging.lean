import InMemoryFuzzing.Fuzz.LoopLogic

/-!
# The logs of a fuzzing session

Whatever the environment does and however the debugger stops, the loggers are told of
the runs in strict alternation and under the numbers of the runs, and the error logs
are those of the runs that ended with an error (`session_logged`), as long as the
number of a run is an `int`.
-/

namespace InMemoryFuzzing.Fuzz

open Platform DotNet DataLog Analyzers

/-- No file is in the directory. -/
def EmptyDirectory (path : String) (fs : FileSystem) : Prop :=
  ∀ name, name.startsWith "/" = false → fs (pathCombine path name) = none

/-- The logs say how the stops `examined` have ended the runs. -/
structure LogsRuns (bps : Breakpoints) (path : String) (examined : List DebuggerStop)
    (calls : List LoggerCall) (fs : FileSystem) : Prop where
  /-- Start 1, finish 1, start 2, …, each under the number of its run. -/
  calls : calls = runCalls toString (runEnds bps examined).length (started bps examined)
  /-- There is an error log for the runs that ended with an error. -/
  exists_iff : ∀ k, 1 ≤ k → ((fs (errorLogFile path k)).isSome = true ↔
    ∃ stop, (runEnds bps examined)[k - 1]? = some stop ∧ stop.stopReason ≠ .breakpoint)
  /-- It holds the record of the stop alone, and the analyzer reports it. -/
  record : ∀ k stop, 1 ≤ k → (runEnds bps examined)[k - 1]? = some stop →
    stop.stopReason ≠ .breakpoint → fs (errorLogFile path k) = some (errorRecord stop) ∧
      analyzeProgramError fs path (toString k) = .ok (some (programErrorReport (toString k) stop))

section

variable {W S L : Type}

/-- The invariant says so for the first `2^31 - 2` runs. -/
theorem LogInv.logsRuns {bps : Breakpoints} {path : String} {examined : List DebuggerStop}
    {st : FuzzState W S L} (h : LogInv bps path examined st)
    (hbound : (runEnds bps examined).length + 1 < 2 ^ 31) :
    LogsRuns bps path examined st.dataLogger.calls st.fs := by
  have hfiles := h.logged.files (by omega)
  have hfile : ∀ k, 1 ≤ k → st.fs (errorLogFile path k) =
      ((runEnds bps examined)[k - 1]?.filter fun stop => stop.stopReason ≠ .breakpoint).map
        errorRecord := by
    intro k hk
    have hsucc : k - 1 + 1 = k := by omega
    rw [← hfiles (k - 1), hsucc]
  refine ⟨?_, fun k hk => ?_, fun k stop hk hends herror => ?_⟩
  · rw [h.logged.calls]
    exact runCalls_congr (fun k hk => prefixText_eq (by omega)) _
  · rw [hfile k hk, Option.isSome_map, Option.isSome_iff_exists]
    refine exists_congr fun stop => ?_
    rw [Option.filter_eq_some_iff, decide_eq_true_eq]
  · have hrecord : st.fs (errorLogFile path k) = some (errorRecord stop) := by
      rw [hfile k hk, hends, Option.filter_some, if_pos (decide_eq_true herror)]
      rfl
    exact ⟨hrecord, analyzeProgramError_record hrecord⟩

/-- Before the first stop. -/
theorem initialState_logInv (bps : Breakpoints) {logDestination : String} (fuzzLocation : List L)
    (lastDebuggerStop : Option DebuggerStop) {fs : FileSystem}
    (hempty : EmptyDirectory logDestination fs) (world : W) :
    LogInv bps logDestination []
      (initialState logDestination fuzzLocation lastDebuggerStop fs world :
        FuzzState W S L).incrementLoggerPrefix := by
  have hone : castInt32 (0 + 1) = castInt32 (0 + 1 : Nat) := congrArg castInt32 rfl
  refine ⟨⟨rfl, hone, congrArg toString hone, congrArg (fun v => some (toString v)) hone, rfl, rfl,
    rfl, fun _ i => ?_⟩, fun h => ?_⟩
  · exact hempty _ (errorLog_relative (i + 1 : Nat))
  · cases h

variable [DecidableEq L]

/-- A session in an empty directory logs its runs, up to the last one whose number is
an `int`. -/
theorem session_logged (env : Environment W S L) (bps : Breakpoints) (stops : List DebuggerStop)
    (logDestination : String) (fuzzLocation : List L) (lastDebuggerStop : Option DebuggerStop)
    (fs : FileSystem) (world : W) (hempty : EmptyDirectory logDestination fs) :
    ∃ st examined, fuzz env bps stops
        (initialState logDestination fuzzLocation lastDebuggerStop fs world) = .ok (st, examined) ∧
      examined <+: lastDebuggerStop.toList ++ stops ∧
      (st.fuzzLocation ≠ [] → examined = lastDebuggerStop.toList ++ stops) ∧
      ((runEnds bps examined).length + 1 < 2 ^ 31 →
        LogsRuns bps logDestination examined st.dataLogger.calls st.fs) := by
  have hinit : LogInv bps logDestination []
      (initialState logDestination fuzzLocation lastDebuggerStop fs world :
        FuzzState W S L).incrementLoggerPrefix :=
    initialState_logInv bps fuzzLocation lastDebuggerStop hempty world
  obtain ⟨st, examined, hloop, hinv, hfront, hall⟩ := fuzzLoop_logInv hinit stops
  exact ⟨st, examined, hloop, hfront, hall, hinv.logsRuns⟩

end

/-- An environment in which nothing happens; its one fuzz location is never finished. -/
def quietEnvironment : Environment Unit Unit Unit where
  isFinished _ w := (false, w)
  isTriggered _ _ w := (false, w)
  run _ s w := (s, w)
  nextFuzzRun _ w := w
  createSnapshot w := ((), w)
  restore _ w := w
  debugContinue _ w := w
  finishedFuzzRun _ w := w
  startingFuzzRun _ w := w

/-- The stop at the snapshot breakpoint, the one at the restore breakpoint, and a
segmentation fault. -/
def snapshotStop : DebuggerStop := ⟨.breakpoint, 0x1000, 0⟩
def restoreStop : DebuggerStop := ⟨.breakpoint, 0x2000, 0⟩
def faultStop : DebuggerStop := ⟨.terminated, 0x1800, 11⟩

/-- Its loop never ends. -/
theorem quiet_fuzzLocation {bps : Breakpoints} {stops examined : List DebuggerStop}
    {lastDebuggerStop : Option DebuggerStop} {st : FuzzState Unit Unit Unit}
    (h : fuzz quietEnvironment bps stops
      (initialState "log" [()] lastDebuggerStop (fun _ => none) ()) = .ok (st, examined)) :
    st.fuzzLocation ≠ [] := by
  have hlocation : st.fuzzLocation = [()] := fuzzLoop_fuzzLocation (fun _ _ => rfl) h
  rw [hlocation]
  exact List.cons_ne_nil _ _

/-- Run 1 ends at the restore breakpoint, run 2 with a fault. -/
theorem session_logged_fault :
    ∃ st, fuzz quietEnvironment ⟨0x1000, 0x2000⟩ [snapshotStop, restoreStop, faultStop]
        (initialState "log" [()] none (fun _ => none) ()) =
          .ok (st, [snapshotStop, restoreStop, faultStop]) ∧
      LogsRuns ⟨0x1000, 0x2000⟩ "log" [snapshotStop, restoreStop, faultStop]
        st.dataLogger.calls st.fs := by
  obtain ⟨st, examined, hfuzz, -, hall, hlogs⟩ :=
    session_logged quietEnvironment ⟨0x1000, 0x2000⟩ [snapshotStop, restoreStop, faultStop] "log"
      [()] none (fun _ => none) () (fun _ _ => rfl)
  have hexamined : examined = [snapshotStop, restoreStop, faultStop] :=
    hall (quiet_fuzzLocation hfuzz)
  subst hexamined
  exact ⟨st, hfuzz, hlogs (by decide)⟩

theorem runEnds_replicate (n : Nat) :
    runEnds ⟨0x1000, 0x2000⟩ (snapshotStop :: List.replicate n restoreStop) =
      List.replicate n restoreStop := by
  rw [runEnds, List.dropWhile_cons_of_neg (by decide), List.filter_cons_of_neg (by decide),
    List.filter_eq_self]
  intro stop hstop
  rw [List.eq_of_mem_replicate hstop]
  rfl

/-- With a snapshot, every stop is examined. -/
theorem quiet_session (stops : List DebuggerStop) :
    ∃ st, fuzz quietEnvironment ⟨0x1000, 0x2000⟩ stops
        (initialState "log" [()] (some snapshotStop) (fun _ => none) ()) =
          .ok (st, snapshotStop :: stops) ∧
      LogInv ⟨0x1000, 0x2000⟩ "log" (snapshotStop :: stops) st := by
  have hinit : LogInv ⟨0x1000, 0x2000⟩ "log" []
      (initialState "log" [()] (some snapshotStop) (fun _ => none) () :
        FuzzState Unit Unit Unit).incrementLoggerPrefix :=
    initialState_logInv _ _ _ (fun _ _ => rfl) ()
  obtain ⟨st, examined, hfuzz, hinv, -, hall⟩ :=
    @fuzzLoop_logInv Unit Unit Unit quietEnvironment _ _ _ _ _ hinit stops
  have hexamined : examined = snapshotStop :: stops := hall (quiet_fuzzLocation hfuzz)
  subst hexamined
  exact ⟨st, hfuzz, hinv⟩

/-- Behind `n` runs the calls are those of the invariant. -/
theorem quiet_calls (n : Nat) :
    ∃ st, fuzz quietEnvironment ⟨0x1000, 0x2000⟩ (List.replicate n restoreStop)
        (initialState "log" [()] (some snapshotStop) (fun _ => none) ()) =
          .ok (st, snapshotStop :: List.replicate n restoreStop) ∧
      st.dataLogger.calls = runCalls prefixText n true := by
  obtain ⟨st, hfuzz, hinv⟩ := quiet_session (List.replicate n restoreStop)
  have hcalls := hinv.logged.calls
  rw [runEnds_replicate, List.length_replicate] at hcalls
  exact ⟨st, hfuzz, hcalls⟩

/-- Run `2^31` is started under the prefix `-2147483648`. -/
theorem run_number_wraps :
    ∃ st examined, fuzz quietEnvironment ⟨0x1000, 0x2000⟩ (List.replicate (2 ^ 31 - 1) restoreStop)
        (initialState "log" [()] (some snapshotStop) (fun _ => none) ()) = .ok (st, examined) ∧
      ¬ LogsRuns ⟨0x1000, 0x2000⟩ "log" examined st.dataLogger.calls st.fs := by
  generalize hn : 2 ^ 31 - 1 = n
  obtain ⟨st, hfuzz, hcalls⟩ := quiet_calls n
  refine ⟨st, _, hfuzz, fun hlogs => ?_⟩
  have hstarted : started ⟨0x1000, 0x2000⟩ (snapshotStop :: List.replicate n restoreStop) = true :=
    rfl
  have hsame := hlogs.calls
  rw [hcalls, runEnds_replicate, List.length_replicate, hstarted] at hsame
  -- the last call of both is the start of run `n + 1`
  have hlast := congrArg List.getLast? hsame
  rw [runCalls_getLast, runCalls_getLast, Option.some.injEq,
    LoggerCall.startingFuzzRun.injEq] at hlast
  have hvalue : castInt32 (n + 1 : Nat) = (n + 1 : Nat) := toString_int_injective hlast
  have hlt : castInt32 (n + 1 : Nat) < ((2 ^ 32 : Nat) + 1) / 2 := Int.bmod_lt (by simp)
  omega

end InMemoryFuzzing.Fuzz

import InMemoryFuzzing.Fuzz.Rounds

/-!
# Sessions in a directory with other files

`FuzzController` reads none of the files, so a session is the same in any directory
(`fuzz_fs`). Its calls on the data logger are the runs one after the other, and the error logs
are its records, in front of what was longer in the files before (`session_loggers`).
-/

namespace InMemoryFuzzing.Fuzz

open Base Platform DotNet DataLog

variable {W S L : Type}

/-! ## The runs of a session -/

/-- The error with which the last of the runs whose error log is `f` has ended. -/
def lastError (path : String) (ends : List DebuggerStop) (f : String) : Option DebuggerStop :=
  ((ends.zipIdx 1).reverse.find? fun (stop, k) => stop.stopReason ≠ .breakpoint &&
    ErrorLog.buildLogFile path (some (prefixText k)) = f).map Prod.fst

theorem lastError_append (path : String) (ends : List DebuggerStop) (stop : DebuggerStop)
    (f : String) :
    lastError path (ends ++ [stop]) f =
      if stop.stopReason ≠ .breakpoint ∧
          ErrorLog.buildLogFile path (some (prefixText (ends.length + 1))) = f then some stop
      else lastError path ends f := by
  have hzip : (ends ++ [stop]).zipIdx 1 = ends.zipIdx 1 ++ [(stop, ends.length + 1)] := by
    rw [List.zipIdx_append, List.zipIdx_singleton, Nat.add_comm]
  rw [lastError, hzip, List.reverse_append, List.reverse_singleton, List.singleton_append,
    List.find?_cons]
  by_cases herror : stop.stopReason ≠ .breakpoint ∧
      ErrorLog.buildLogFile path (some (prefixText (ends.length + 1))) = f
  · rw [if_pos herror]
    simp [herror.1, herror.2]
  · rw [if_neg herror]
    have hfalse : (decide (stop.stopReason ≠ .breakpoint) &&
        decide (ErrorLog.buildLogFile path (some (prefixText (ends.length + 1))) = f)) = false := by
      rw [Bool.eq_false_iff]
      simpa using herror
    simp only [hfalse]
    rfl

/-- What a file holds behind a session, when it held `old` before. -/
def errorContent (old : Option (List UInt8)) : Option DebuggerStop → Option (List UInt8)
  | some stop => some (errorRecord stop ++ (old.getD []).drop 20)
  | none => old

theorem errorContent_append (old : Option (List UInt8)) (error : Option DebuggerStop)
    (stop : DebuggerStop) :
    some (errorRecord stop ++ ((errorContent old error).getD []).drop 20) =
      errorContent old (some stop) := by
  cases error with
  | none => rfl
  | some last =>
      have hdrop : (errorRecord last ++ (old.getD []).drop 20).drop 20 = (old.getD []).drop 20 :=
        List.drop_left' (errorRecord_length last)
      simp only [errorContent, Option.getD_some, hdrop]

/-- What the loggers know of a session in a directory that held `files` before. -/
structure SessionInv (path : String) (files : FileSystem) (ends : List DebuggerStop)
    (st : FuzzState W S L) : Prop where
  loggerPrefix : st.loggerPrefix = castInt32 (ends.length + 1 : Nat)
  dataPrefix : st.dataLogger.runPrefix = prefixText (ends.length + 1)
  errorPrefix : st.errorLog.runPrefix = some (prefixText (ends.length + 1))
  errorPath : st.errorLog.path = path
  errorClosed : st.errorLog.logStream = none
  calls : st.dataLogger.calls = runCalls prefixText ends.length st.snapshot.isSome
  files : ∀ f, st.fs f = errorContent (files f) (lastError path ends f)

/-- The error of the open run. -/
theorem SessionInv.log {path : String} {files : FileSystem} {ends : List DebuggerStop}
    {st : FuzzState W S L} (h : SessionInv path files ends st) (stop : DebuggerStop) (f : String) :
    (if stop.stopReason ≠ .breakpoint then st.logDebuggerStop stop else st).fs f =
      errorContent (files f) (lastError path (ends ++ [stop]) f) := by
  rw [lastError_append]
  by_cases herror : stop.stopReason ≠ .breakpoint
  · rw [if_pos herror]
    show (st.errorLog.logDebuggerStop st.fs stop).2 f = _
    rw [ErrorLog.logDebuggerStop_file h.errorClosed, h.errorPath, h.errorPrefix]
    by_cases hfile : ErrorLog.buildLogFile path (some (prefixText (ends.length + 1))) = f
    -- a record of an earlier run with this file is overwritten
    · rw [if_pos ⟨herror, hfile⟩, hfile, FileSystem.set_self, h.files f, errorContent_append]
    · rw [if_neg (fun h => hfile h.2), FileSystem.set_of_ne (Ne.symm hfile), h.files f]
  · rw [if_neg herror, if_neg (fun h => herror h.1), h.files f]

variable [DecidableEq L]

theorem sessionInv_ends (env : Environment W S L) (path : String) (files : FileSystem) :
    EndsInvariant env (SessionInv path files : List DebuggerStop → FuzzState W S L → Prop) where
  snapshot st h hnone := by
    refine ⟨h.loggerPrefix, h.dataPrefix, h.errorPrefix, h.errorPath, h.errorClosed, ?_, h.files⟩
    show st.dataLogger.calls ++ [.startingFuzzRun st.dataLogger.runPrefix] = _
    rw [h.calls, h.dataPrefix, hnone]
    rfl
  continued _ st stop h :=
    ⟨h.loggerPrefix, h.dataPrefix, h.errorPrefix, h.errorPath, h.errorClosed, h.calls, h.files⟩
  round ends st snapshot stop h hsome := by
    have hfiles := h.log stop
    generalize hlogged : (if stop.stopReason ≠ .breakpoint then st.logDebuggerStop stop else st) =
      logged at hfiles ⊢
    have hfront : logged.loggerPrefix = st.loggerPrefix := by
      rw [← hlogged]
      split <;> rfl
    have hdata : logged.dataLogger = st.dataLogger := by
      rw [← hlogged]
      split <;> rfl
    have hpath : logged.errorLog.path = st.errorLog.path := by
      rw [← hlogged]
      split <;> rfl
    obtain ⟨hnumber, hcalls, herror, hfs, hsnapshot, -⟩ :=
      @restoreAndFuzz_loggers W S L env _ snapshot logged
    rw [hfront, h.loggerPrefix, castInt32_succ] at hnumber hcalls herror
    have hlength : (ends ++ [stop]).length = ends.length + 1 := List.length_append
    refine ⟨?_, ?_, ?_, ?_, ?_, ?_, ?_⟩
    · rw [hnumber, hlength]
    · rw [hcalls, hlength]
      rfl
    · rw [herror, hlength]
      rfl
    · rw [herror]
      exact hpath.trans h.errorPath
    · rw [herror]
    · rw [hcalls, hdata, h.calls, h.dataPrefix, hlength, hsnapshot, hsome, runCalls_succ,
        List.append_assoc]
      rfl
    · intro f
      rw [hfs]
      exact hfiles f

/-- A session in any directory. -/
theorem session_loggers {env : Environment W S L} {bps : Breakpoints}
    {stops examined : List DebuggerStop} {path : String} {fuzzLocation : List L}
    {lastDebuggerStop : Option DebuggerStop} {files : FileSystem} {world : W}
    {st : FuzzState W S L}
    (h : fuzz env bps stops (initialState path fuzzLocation lastDebuggerStop files world) =
      .ok (st, examined)) :
    SessionInv path files (runEnds bps examined) st ∧
      st.snapshot.isSome = started bps examined := by
  have hone : castInt32 (0 + 1) = castInt32 (0 + 1 : Nat) := congrArg castInt32 rfl
  have hinit : SessionInv path files []
      (initialState path fuzzLocation lastDebuggerStop files world :
        FuzzState W S L).incrementLoggerPrefix :=
    ⟨hone, congrArg toString hone, congrArg (fun v => some (toString v)) hone, rfl, rfl, rfl,
      fun _ => rfl⟩
  have htop := (sessionInv_ends env path files).fuzz hinit rfl h
  exact ⟨htop.holds, htop.snapshot⟩

/-! ## The same session in another directory -/

section

variable {env : Environment W S L} {bps : Breakpoints} {st st' : FuzzState W S L}

omit [DecidableEq L] in
theorem reachSnapshot_fs (fs : FileSystem) :
    reachSnapshot env bps { st with fs := fs } = { reachSnapshot env bps st with fs := fs } := by
  unfold reachSnapshot
  dsimp only
  split
  · split <;> rfl
  · rfl

omit [DecidableEq L] in
theorem logDebuggerStop_fs_any (st : FuzzState W S L) (fs : FileSystem) (stop : DebuggerStop) :
    ∃ fs', FuzzState.logDebuggerStop stop { st with fs := fs } =
      { st.logDebuggerStop stop with fs := fs' } := by
  refine ⟨(st.errorLog.logDebuggerStop fs stop).2, ?_⟩
  unfold FuzzState.logDebuggerStop ErrorLog.logDebuggerStop
  cases st.errorLog.logStream <;> rfl

/-- The body of the loop. -/
theorem loopBody_fs (h : loopBody env bps st = .ok st') (fs : FileSystem) :
    ∃ fs', loopBody env bps { st with fs := fs } = .ok { st' with fs := fs' } := by
  unfold loopBody at h ⊢
  rw [reachSnapshot_fs]
  generalize reachSnapshot env bps st = reached at h
  obtain ⟨locations, snapshot, lastStop, number, dataLogger, errorLog, files, world⟩ := reached
  cases snapshot with
  | none =>
      cases h
      exact ⟨fs, rfl⟩
  | some snapshot =>
      cases lastStop with
      | none => cases h
      | some stop =>
          dsimp only at h ⊢
          split at h
          · rename_i hrestore
            cases h
            rw [if_pos hrestore]
            exact ⟨fs, rfl⟩
          · rename_i hrestore
            rw [if_neg hrestore]
            split at h
            · rename_i herror
              cases h
              obtain ⟨fs', hlogged⟩ := logDebuggerStop_fs_any ⟨locations, some snapshot,
                some stop, number, dataLogger, errorLog, files, world⟩ fs stop
              rw [if_pos herror, hlogged]
              exact ⟨fs', rfl⟩
            · rename_i herror
              cases h
              rw [if_neg herror]
              exact ⟨fs, rfl⟩

theorem fuzzLoop_fs {stops examined : List DebuggerStop}
    (h : fuzzLoop env bps stops st = .ok (st', examined)) (fs : FileSystem) :
    ∃ fs', fuzzLoop env bps stops { st with fs := fs } = .ok ({ st' with fs := fs' }, examined) := by
  induction stops generalizing st examined fs with
  | nil =>
      unfold fuzzLoop at h ⊢
      dsimp only
      split at h
      · rename_i hempty
        cases h
        rw [if_pos hempty]
        exact ⟨fs, rfl⟩
      · rename_i hempty
        obtain ⟨next, hbody, hret⟩ := bind_ok.mp h
        cases hret
        obtain ⟨fs', hbody'⟩ := loopBody_fs hbody fs
        rw [if_neg hempty, hbody']
        exact ⟨fs', rfl⟩
  | cons stop rest ih =>
      unfold fuzzLoop at h ⊢
      dsimp only
      split at h
      · rename_i hempty
        cases h
        rw [if_pos hempty]
        exact ⟨fs, rfl⟩
      · rename_i hempty
        obtain ⟨next, hbody, hrest⟩ := bind_ok.mp h
        obtain ⟨⟨last, later⟩, hnext, hret⟩ := bind_ok.mp hrest
        cases hret
        obtain ⟨mid, hbody'⟩ := loopBody_fs hbody fs
        obtain ⟨fs', hnext'⟩ := ih hnext mid
        rw [if_neg hempty, hbody']
        refine ⟨fs', ?_⟩
        show (fuzzLoop env bps rest { debugContinue env stop next with fs := mid }).bind _ = _
        rw [hnext']
        rfl

/-- The controller reads no file. -/
theorem fuzz_fs {stops examined : List DebuggerStop} {path : String} {fuzzLocation : List L}
    {lastDebuggerStop : Option DebuggerStop} {files : FileSystem} {world : W}
    (h : fuzz env bps stops (initialState path fuzzLocation lastDebuggerStop files world) =
      .ok (st, examined)) (files' : FileSystem) :
    ∃ fs', fuzz env bps stops (initialState path fuzzLocation lastDebuggerStop files' world) =
      .ok ({ st with fs := fs' }, examined) :=
  fuzzLoop_fs h files'

end

end InMemoryFuzzing.Fuzz

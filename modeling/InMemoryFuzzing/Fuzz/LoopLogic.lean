import InMemoryFuzzing.Analyzers.ProgramError
import InMemoryFuzzing.Fuzz.Controller
import Mathlib.Data.List.Basic
import Mathlib.Data.List.TakeWhile

/-!
# What the fuzz loop does to the loggers

The stops that the body of the loop has looked at determine the runs: the first stop
at the snapshot breakpoint starts run 1, and from there on (`runEnds`) every stop that
is no breakpoint or at the restore breakpoint ends a run and starts the next one.

`LogInv` says what the loggers know of it: the prefix in 32 bits, the calls in strict
alternation, one error log for each run that ended with an error. One pass of the body
keeps it (`loopBody_logInv`), so the loop does (`fuzzLoop_logInv`), whatever the
environment does.
-/

namespace InMemoryFuzzing.Fuzz

open Base Platform DotNet DataLog Analyzers

/-! ## Runs -/

/-- The first of these stops lets the controller make its snapshot. -/
def isSnapshotStop (bps : Breakpoints) (stop : DebuggerStop) : Bool :=
  stop.address = bps.snapshotBreakpoint && stop.stopReason = .breakpoint

/-- Such a stop ends the run, if there is one. -/
def endsRun (bps : Breakpoints) (stop : DebuggerStop) : Bool :=
  stop.stopReason ≠ .breakpoint || stop.address = bps.restoreBreakpoint

/-- The stops with which runs 1, 2, … have ended. -/
def runEnds (bps : Breakpoints) (examined : List DebuggerStop) : List DebuggerStop :=
  (examined.dropWhile fun stop => !isSnapshotStop bps stop).filter (endsRun bps)

/-- Run 1 has been started. -/
def started (bps : Breakpoints) (examined : List DebuggerStop) : Bool :=
  examined.any (isSnapshotStop bps)

theorem started_append (bps : Breakpoints) (examined : List DebuggerStop) (stop : DebuggerStop) :
    started bps (examined ++ [stop]) = (started bps examined || isSnapshotStop bps stop) := by
  rw [started, List.any_append, List.any_cons, List.any_nil, Bool.or_false, started]

theorem runEnds_of_not_started {bps : Breakpoints} {examined : List DebuggerStop}
    (h : started bps examined = false) : runEnds bps examined = [] := by
  have hdrop : (examined.dropWhile fun stop => !isSnapshotStop bps stop) = [] := by
    rw [List.dropWhile_eq_nil_iff]
    intro stop hstop
    rw [started, List.any_eq_false] at h
    simpa using h stop hstop
  rw [runEnds, hdrop, List.filter_nil]

/-- A stop behind the start of run 1 counts by itself. -/
theorem runEnds_append {bps : Breakpoints} {examined : List DebuggerStop} {stop : DebuggerStop}
    (h : started bps (examined ++ [stop]) = true) :
    runEnds bps (examined ++ [stop]) =
      runEnds bps examined ++ if endsRun bps stop then [stop] else [] := by
  have hdrop : ((examined ++ [stop]).dropWhile fun stop => !isSnapshotStop bps stop) =
      (examined.dropWhile fun stop => !isSnapshotStop bps stop) ++ [stop] := by
    induction examined with
    | nil =>
        rw [started_append, started, List.any_nil, Bool.false_or] at h
        rw [List.nil_append, List.dropWhile_cons_of_neg (by simp [h]), List.dropWhile_nil,
          List.nil_append]
    | cons s examined ih =>
        by_cases hs : isSnapshotStop bps s = true
        · rw [List.cons_append, List.dropWhile_cons_of_neg (by simp [hs]),
            List.dropWhile_cons_of_neg (by simp [hs]), List.cons_append]
        · rw [List.cons_append, List.dropWhile_cons_of_pos (by simp [hs]),
            List.dropWhile_cons_of_pos (by simp [hs])]
          apply ih
          rw [List.cons_append, started, List.any_cons, Bool.or_eq_true] at h
          exact h.resolve_left hs
  rw [runEnds, hdrop, List.filter_append, runEnds]
  by_cases hends : endsRun bps stop = true
  · rw [if_pos hends, List.filter_cons_of_pos hends, List.filter_nil]
  · rw [if_neg hends, List.filter_cons_of_neg hends, List.filter_nil]

/-! ## Calls -/

/-- Runs 1 to `n`, each started and finished, and the start of the next one, if it is
open; `text` is the prefix of a run. -/
def runCalls (text : Nat → String) (n : Nat) (isOpen : Bool) : List LoggerCall :=
  ((List.range n).flatMap fun i =>
    [.startingFuzzRun (text (i + 1)), .finishedFuzzRun (text (i + 1))]) ++
      if isOpen then [.startingFuzzRun (text (n + 1))] else []

/-- The open run is finished and the next one is started. -/
theorem runCalls_succ (text : Nat → String) (n : Nat) :
    runCalls text (n + 1) true =
      runCalls text n true ++
        [.finishedFuzzRun (text (n + 1)), .startingFuzzRun (text (n + 1 + 1))] := by
  rw [runCalls, runCalls, List.range_succ, List.flatMap_append, List.flatMap_singleton]
  simp

theorem runCalls_getLast (text : Nat → String) (n : Nat) :
    (runCalls text n true).getLast? = some (.startingFuzzRun (text (n + 1))) := by
  rw [runCalls, List.getLast?_append]
  rfl

/-- The runs that are finished have been started. -/
theorem mem_runCalls {text : Nat → String} {n k : Nat} {isOpen : Bool} (hk : 1 ≤ k) (hle : k ≤ n) :
    .startingFuzzRun (text k) ∈ runCalls text n isOpen := by
  rw [runCalls]
  apply List.mem_append_left
  rw [List.mem_flatMap]
  refine ⟨k - 1, List.mem_range.mpr (by omega), ?_⟩
  rw [Nat.sub_add_cancel hk]
  exact List.mem_cons_self

theorem runCalls_congr {text text' : Nat → String} {n : Nat}
    (h : ∀ k, k ≤ n + 1 → text k = text' k) (isOpen : Bool) :
    runCalls text n isOpen = runCalls text' n isOpen := by
  have hlast := h (n + 1) (Nat.le_refl _)
  have hruns : ((List.range n).flatMap fun i =>
      [LoggerCall.startingFuzzRun (text (i + 1)), .finishedFuzzRun (text (i + 1))]) =
      (List.range n).flatMap fun i =>
        [.startingFuzzRun (text' (i + 1)), .finishedFuzzRun (text' (i + 1))] := by
    refine List.flatMap_congr fun i hi => ?_
    have hlt := List.mem_range.mp hi
    rw [h (i + 1) (by omega)]
  rw [runCalls, runCalls, hruns, hlast]

/-- The prefix of a run: an `int`, as text. -/
def prefixText (k : Nat) : String := toString (castInt32 k)

theorem prefixText_eq {k : Nat} (h : k < 2 ^ 31) : prefixText k = toString k := by
  have hcast : castInt32 k = k := by
    rw [castInt32, Int.bmod_eq_of_le (by omega) (by omega)]
  rw [prefixText, hcast]
  rfl

/-! ## Files -/

/-- The error log of a run. -/
def errorLogFile (path : String) (k : Nat) : String := pathCombine path (toString k ++ ".errorlog")

/-- A number begins with a digit or a minus sign. -/
theorem toString_int_toList (v : Int) : ∃ c rest, (toString v).toList = c :: rest ∧ c ≠ '/' := by
  cases v with
  | ofNat n =>
      have hdigits : (toString (Int.ofNat n)).toList = Nat.toDigits 10 n := String.toList_ofList
      rw [hdigits]
      cases hlist : Nat.toDigits 10 n with
      | nil => exact absurd hlist Nat.toDigits_ne_nil
      | cons c rest =>
          refine ⟨c, rest, rfl, ?_⟩
          rintro rfl
          have hslash : '/' ∈ Nat.toDigits 10 n := hlist ▸ List.mem_cons_self
          exact Base.not_mem_toDigits (by omega) (by omega) rfl hslash
  | negSucc n =>
      refine ⟨'-', (toString (n + 1)).toList, ?_, by simp⟩
      have hminus : toString (Int.negSucc n) = "-" ++ toString (n + 1) := rfl
      rw [hminus, String.toList_append]
      rfl

/-- The name of a log file is no absolute path. -/
theorem errorLog_relative (v : Int) : (toString v ++ ".errorlog").startsWith "/" = false := by
  obtain ⟨c, rest, hlist, hc⟩ := toString_int_toList v
  rw [String.startsWith_string_eq_false_iff, String.toList_append, hlist]
  rintro ⟨more, hmore⟩
  exact hc (List.cons.inj hmore).1.symm

theorem errorLog_file (path : String) (v : Int) :
    ErrorLog.buildLogFile path (some (toString v)) =
      pathCombine path (toString v ++ ".errorlog") := by
  obtain ⟨c, rest, hlist, -⟩ := toString_int_toList v
  have hne : toString v ≠ "" := by
    intro hempty
    rw [hempty] at hlist
    cases hlist
  rw [ErrorLog.buildLogFile, if_pos hne]

theorem errorLog_prefixText (path : String) (k : Nat) :
    ErrorLog.buildLogFile path (some (prefixText k)) =
      pathCombine path (prefixText k ++ ".errorlog") := errorLog_file path (castInt32 k)

theorem errorLog_injective {path : String} {v w : Int}
    (h : ErrorLog.buildLogFile path (some (toString v)) =
      ErrorLog.buildLogFile path (some (toString w))) : v = w := by
  rw [errorLog_file, errorLog_file] at h
  have hname := pathCombine_relative_injective (errorLog_relative v) (errorLog_relative w) h
  exact toString_int_injective ((String.append_left_inj _).mp hname)

theorem buildLogFile_eq (path : String) (k : Nat) :
    ErrorLog.buildLogFile path (some (toString k)) = errorLogFile path k := errorLog_file path k

theorem errorLogFile_injective {path : String} {k l : Nat}
    (h : errorLogFile path k = errorLogFile path l) : k = l := by
  rw [← buildLogFile_eq, ← buildLogFile_eq] at h
  exact Int.ofNat_inj.mp (errorLog_injective (v := k) (w := l) h)

/-! ## One pass of the loop -/

section

variable {W S L : Type} {env : Environment W S L} {bps : Breakpoints}
variable {path : String} {st : FuzzState W S L}

/-- What the loggers know when runs have ended with `ends`, and another one is open or
not. -/
structure Logged (path : String) (ends : List DebuggerStop) (isOpen : Bool)
    (st : FuzzState W S L) : Prop where
  snapshot : st.snapshot.isSome = isOpen
  loggerPrefix : st.loggerPrefix = castInt32 (ends.length + 1 : Nat)
  dataPrefix : st.dataLogger.runPrefix = prefixText (ends.length + 1)
  errorPrefix : st.errorLog.runPrefix = some (prefixText (ends.length + 1))
  errorPath : st.errorLog.path = path
  errorClosed : st.errorLog.logStream = none
  calls : st.dataLogger.calls = runCalls prefixText ends.length isOpen
  files : ends.length < 2 ^ 31 → ∀ i, st.fs (errorLogFile path (i + 1)) =
    (ends[i]?.filter fun stop => stop.stopReason ≠ .breakpoint).map errorRecord

/-- The next prefix. -/
theorem castInt32_succ (n : Nat) :
    castInt32 (castInt32 (n : Nat) + 1) = castInt32 (n + 1 : Nat) := by
  rw [castInt32, castInt32, castInt32, Int.bmod_add_bmod, Nat.cast_succ]

/-- The error of a run goes to a new file. -/
theorem logDebuggerStop_fs {ends : List DebuggerStop} (h : Logged path ends true st)
    (hbound : ends.length + 1 < 2 ^ 31) (stop : DebuggerStop) :
    (st.logDebuggerStop stop).fs =
      st.fs.set (errorLogFile path (ends.length + 1)) (some (errorRecord stop)) := by
  have hfile : ErrorLog.buildLogFile st.errorLog.path st.errorLog.runPrefix =
      errorLogFile path (ends.length + 1) := by
    rw [h.errorPath, h.errorPrefix, prefixText_eq hbound, buildLogFile_eq]
  have hnew : st.fs (errorLogFile path (ends.length + 1)) = none := by
    rw [h.files (by omega), List.getElem?_eq_none (Nat.le_refl _)]
    rfl
  rw [← hfile] at hnew ⊢
  exact ErrorLog.logDebuggerStop_new h.errorClosed hnew stop

theorem getElem?_append_singleton_of_ne {α : Type} {l : List α} {i : Nat} (h : i ≠ l.length)
    (x : α) : (l ++ [x])[i]? = l[i]? := by
  rcases Nat.lt_or_gt_of_ne h with hlt | hgt
  · exact List.getElem?_append_left hlt
  · rw [List.getElem?_eq_none (by rw [List.length_append, List.length_singleton]; omega),
      List.getElem?_eq_none (by omega)]

/-- The files, when a stop has ended the open run. -/
theorem errorLogs_append {ends : List DebuggerStop} (h : Logged path ends true st)
    (hbound : ends.length + 1 < 2 ^ 31) (stop : DebuggerStop) (i : Nat) :
    (if stop.stopReason ≠ .breakpoint then st.logDebuggerStop stop else st).fs
        (errorLogFile path (i + 1)) =
      ((ends ++ [stop])[i]?.filter fun stop => stop.stopReason ≠ .breakpoint).map errorRecord := by
  have hold := h.files (by omega) i
  by_cases hi : i = ends.length
  · -- the file of the run that ends
    subst hi
    rw [List.getElem?_concat_length, Option.filter_some]
    by_cases herror : stop.stopReason ≠ .breakpoint
    · rw [if_pos herror, if_pos (decide_eq_true herror), logDebuggerStop_fs h hbound,
        FileSystem.set_self]
      rfl
    · rw [if_neg herror, if_neg (by simpa using herror), hold,
        List.getElem?_eq_none (Nat.le_refl _)]
      rfl
  · rw [getElem?_append_singleton_of_ne hi, ← hold]
    by_cases herror : stop.stopReason ≠ .breakpoint
    · have hother : errorLogFile path (i + 1) ≠ errorLogFile path (ends.length + 1) :=
        fun heq => hi (Nat.succ_injective (errorLogFile_injective heq))
      rw [if_pos herror, logDebuggerStop_fs h hbound, FileSystem.set_of_ne hother]
    · rw [if_neg herror]

/-- The snapshot is made at the first stop that allows it. -/
theorem reachSnapshot_logged {ends : List DebuggerStop} {isOpen : Bool} {stop : DebuggerStop}
    (h : Logged path ends isOpen st) (hempty : isOpen = false → ends = [])
    (hstop : st.lastDebuggerStop = some stop) :
    Logged path ends (isOpen || isSnapshotStop bps stop) (reachSnapshot env bps st) ∧
      (reachSnapshot env bps st).lastDebuggerStop = some stop := by
  have hsnapshot := h.snapshot
  cases isOpen with
  | true =>
      obtain ⟨snapshot, hsome⟩ := Option.isSome_iff_exists.mp hsnapshot
      have hsame : reachSnapshot env bps st = st := by
        rw [reachSnapshot, hsome]
      rw [hsame, Bool.true_or]
      exact ⟨h, hstop⟩
  | false =>
      have hnone : st.snapshot = none := by
        rwa [Option.isSome_eq_false_iff, Option.isNone_iff_eq_none] at hsnapshot
      have hends := hempty rfl
      rw [Bool.false_or, reachSnapshot, hnone, hstop]
      dsimp only
      by_cases hreached : bps.snapshotBreakpoint = stop.address ∧ stop.stopReason = .breakpoint
      · have hsnapshotStop : isSnapshotStop bps stop = true := by
          simp [isSnapshotStop, hreached.1, hreached.2]
        rw [if_pos hreached, hsnapshotStop]
        refine ⟨⟨rfl, h.loggerPrefix, h.dataPrefix, h.errorPrefix, h.errorPath, h.errorClosed,
          ?_, h.files⟩, hstop⟩
        show st.dataLogger.calls ++ [.startingFuzzRun st.dataLogger.runPrefix] = _
        rw [h.calls, h.dataPrefix, hends]
        rfl
      · have hsnapshotStop : isSnapshotStop bps stop = false := by
          rw [Bool.eq_false_iff]
          intro htrue
          rw [isSnapshotStop, Bool.and_eq_true, decide_eq_true_eq, decide_eq_true_eq] at htrue
          exact hreached ⟨htrue.1.symm, htrue.2⟩
        rw [if_neg hreached, hsnapshotStop]
        exact ⟨h, hstop⟩

variable [DecidableEq L]

/-- `RestoreAndFuzz`, as far as the loggers are concerned. -/
theorem restoreAndFuzz_loggers (snapshot : S) (st : FuzzState W S L) :
    (restoreAndFuzz env snapshot st).loggerPrefix = castInt32 (st.loggerPrefix + 1) ∧
    (restoreAndFuzz env snapshot st).dataLogger =
      ⟨toString (castInt32 (st.loggerPrefix + 1)),
        st.dataLogger.calls ++ [.finishedFuzzRun st.dataLogger.runPrefix] ++
          [.startingFuzzRun (toString (castInt32 (st.loggerPrefix + 1)))]⟩ ∧
    (restoreAndFuzz env snapshot st).errorLog =
      ⟨st.errorLog.path, some (toString (castInt32 (st.loggerPrefix + 1))), none⟩ ∧
    (restoreAndFuzz env snapshot st).fs = st.fs ∧
    (restoreAndFuzz env snapshot st).snapshot.isSome = true ∧
    (restoreAndFuzz env snapshot st).lastDebuggerStop = st.lastDebuggerStop :=
  ⟨rfl, rfl, rfl, rfl, rfl, rfl⟩

/-- A stop ends the open run and the next one is started. -/
theorem restoreAndFuzz_logged {ends : List DebuggerStop} (h : Logged path ends true st)
    (snapshot : S) (stop : DebuggerStop) :
    Logged path (ends ++ [stop]) true (restoreAndFuzz env snapshot
      (if stop.stopReason ≠ .breakpoint then st.logDebuggerStop stop else st)) := by
  generalize hlogged : (if stop.stopReason ≠ .breakpoint then st.logDebuggerStop stop else st) =
    logged
  have hfront : logged.loggerPrefix = st.loggerPrefix := by
    rw [← hlogged]
    split <;> rfl
  have hdata : logged.dataLogger = st.dataLogger := by
    rw [← hlogged]
    split <;> rfl
  have hpath : logged.errorLog.path = st.errorLog.path := by
    rw [← hlogged]
    split <;> rfl
  obtain ⟨hnumber, hcalls, herror, hfs, hsnapshot, -⟩ :=
    @restoreAndFuzz_loggers W S L env _ snapshot logged
  rw [hfront, h.loggerPrefix, castInt32_succ] at hnumber hcalls herror
  have hlength : (ends ++ [stop]).length = ends.length + 1 := List.length_append
  refine ⟨hsnapshot, ?_, ?_, ?_, ?_, ?_, ?_, fun hbound i => ?_⟩
  · rw [hnumber, hlength]
  · rw [hcalls, hlength]
    rfl
  · rw [herror, hlength]
    rfl
  · rw [herror]
    exact hpath.trans h.errorPath
  · rw [herror]
  · rw [hcalls, hdata, h.calls, h.dataPrefix, hlength, runCalls_succ, List.append_assoc]
    rfl
  · rw [hlength] at hbound
    rw [hfs, ← hlogged]
    exact errorLogs_append h hbound stop i

/-- What the loggers know at the top of the loop. -/
structure LogInv (bps : Breakpoints) (path : String) (examined : List DebuggerStop)
    (st : FuzzState W S L) : Prop where
  logged : Logged path (runEnds bps examined) (started bps examined) st
  stopped : started bps examined = true → st.lastDebuggerStop ≠ none

/-- With a snapshot the body ends the run, or does nothing. -/
theorem loopBody_of_snapshot {reached : FuzzState W S L} {snapshot : S} {stop : DebuggerStop}
    (hreached : reachSnapshot env bps st = reached) (hsnapshot : reached.snapshot = some snapshot)
    (hstop : reached.lastDebuggerStop = some stop) :
    loopBody env bps st = .ok (if endsRun bps stop then restoreAndFuzz env snapshot
      (if stop.stopReason ≠ .breakpoint then reached.logDebuggerStop stop else reached)
        else reached) := by
  rw [loopBody, hreached, hsnapshot, hstop, endsRun]
  dsimp only
  by_cases hbreak : stop.stopReason = .breakpoint
  · by_cases hrestore : bps.restoreBreakpoint = stop.address
    · simp [hbreak, hrestore]
    · simp [hbreak, hrestore, Ne.symm hrestore]
  · simp [hbreak]

/-- The body of the loop looks at the last stop. -/
theorem loopBody_logInv {examined : List DebuggerStop} (h : LogInv bps path examined st) :
    ∃ st', loopBody env bps st = .ok st' ∧
      LogInv bps path (examined ++ st.lastDebuggerStop.toList) st' := by
  cases hlast : st.lastDebuggerStop with
  | none =>
      have hnot : started bps examined = false := by
        rw [Bool.eq_false_iff]
        exact fun hstarted => h.stopped hstarted hlast
      have hnone : st.snapshot = none := by
        have hsnapshot := h.logged.snapshot
        rwa [hnot, Option.isSome_eq_false_iff, Option.isNone_iff_eq_none] at hsnapshot
      have hsame : reachSnapshot env bps st = st := by
        rw [reachSnapshot, hnone, hlast]
      refine ⟨st, ?_, ?_⟩
      · rw [loopBody, hsame, hnone]
      · rw [Option.toList_none, List.append_nil]
        exact h
  | some stop =>
      have hreached : Logged path (runEnds bps examined)
          (started bps examined || isSnapshotStop bps stop) (reachSnapshot env bps st) ∧ _ :=
        reachSnapshot_logged h.logged runEnds_of_not_started hlast
      obtain ⟨hreach, hlast'⟩ := hreached
      rw [← started_append] at hreach
      rw [Option.toList_some]
      generalize hst : reachSnapshot env bps st = reached at hreach hlast'
      have hsnapshot := hreach.snapshot
      cases hstarted : started bps (examined ++ [stop]) with
      | false =>
          rw [hstarted] at hreach hsnapshot
          rw [Option.isSome_eq_false_iff, Option.isNone_iff_eq_none] at hsnapshot
          refine ⟨reached, ?_, ?_, ?_⟩
          · rw [loopBody, hst, hsnapshot]
          · have hbefore : started bps examined = false := by
              rw [started_append, Bool.or_eq_false_iff] at hstarted
              exact hstarted.1
            rw [runEnds_of_not_started hstarted, hstarted, ← runEnds_of_not_started hbefore]
            exact hreach
          · intro htrue
            rw [hstarted] at htrue
            cases htrue
      | true =>
          rw [hstarted] at hreach hsnapshot
          obtain ⟨snapshot, hsome⟩ := Option.isSome_iff_exists.mp hsnapshot
          rw [loopBody_of_snapshot hst hsome hlast']
          refine ⟨_, rfl, ?_, fun _ => ?_⟩
          · rw [runEnds_append hstarted, hstarted]
            by_cases hends : endsRun bps stop = true
            · rw [if_pos hends, if_pos hends]
              exact restoreAndFuzz_logged hreach snapshot stop
            · rw [if_neg hends, if_neg hends, List.append_nil]
              exact hreach
          · have hkept : (if endsRun bps stop = true then restoreAndFuzz env snapshot
                (if stop.stopReason ≠ .breakpoint then reached.logDebuggerStop stop else reached)
                  else reached).lastDebuggerStop = reached.lastDebuggerStop := by
              split
              · rw [(restoreAndFuzz_loggers _ _).2.2.2.2.2]
                split <;> rfl
              · rfl
            rw [hkept, hlast']
            exact Option.some_ne_none stop

theorem fuzzLoop_ended (h : st.fuzzLocation = []) (stops : List DebuggerStop) :
    fuzzLoop env bps stops st = .ok (st, []) := by
  rw [fuzzLoop, if_pos h]
  rfl

/-- The loop, from a state in which `examined` have been looked at. -/
theorem fuzzLoop_logInv {examined : List DebuggerStop} (h : LogInv bps path examined st)
    (stops : List DebuggerStop) :
    ∃ st' later, fuzzLoop env bps stops st = .ok (st', later) ∧
      LogInv bps path (examined ++ later) st' ∧ later <+: st.lastDebuggerStop.toList ++ stops ∧
      (st'.fuzzLocation ≠ [] → later = st.lastDebuggerStop.toList ++ stops) := by
  induction stops generalizing st examined with
  | nil =>
      by_cases hnone : st.fuzzLocation = []
      · refine ⟨st, [], fuzzLoop_ended hnone [], ?_, List.nil_prefix, fun hne => absurd hnone hne⟩
        rw [List.append_nil]
        exact h
      · obtain ⟨st', hbody, hst'⟩ := loopBody_logInv h
        rw [fuzzLoop, if_neg hnone, List.append_nil, hbody]
        exact ⟨st', _, rfl, hst', List.prefix_refl _, fun _ => rfl⟩
  | cons stop rest ih =>
      by_cases hnone : st.fuzzLocation = []
      · refine ⟨st, [], fuzzLoop_ended hnone _, ?_, List.nil_prefix, fun hne => absurd hnone hne⟩
        rw [List.append_nil]
        exact h
      · obtain ⟨st', hbody, hst'⟩ := loopBody_logInv h
        rw [fuzzLoop, if_neg hnone, hbody]
        have hnext : LogInv bps path (examined ++ st.lastDebuggerStop.toList)
            (debugContinue env stop st') :=
          ⟨⟨hst'.logged.snapshot, hst'.logged.loggerPrefix, hst'.logged.dataPrefix,
            hst'.logged.errorPrefix, hst'.logged.errorPath, hst'.logged.errorClosed,
            hst'.logged.calls, hst'.logged.files⟩, fun _ => Option.some_ne_none stop⟩
        obtain ⟨st'', later, hloop, hinv, hfront, hall⟩ := ih hnext
        refine ⟨st'', st.lastDebuggerStop.toList ++ later, ?_, ?_, ?_, ?_⟩
        · simp only [bind, Except.bind, hloop]
          rfl
        · rw [← List.append_assoc]
          exact hinv
        · exact (List.prefix_append_right_inj _).mpr hfront
        · intro hne
          rw [hall hne]
          rfl

/-! ## Locations that are never finished -/

theorem invokeFuzzLocations_fuzzLocation (h : ∀ l w, (env.isFinished l w).1 = false)
    (triggerType : TriggerEnum) (snapshot : S) (st : FuzzState W S L) :
    (invokeFuzzLocations env triggerType snapshot st).2.fuzzLocation = st.fuzzLocation := by
  have hfold : ∀ (locations : List L) (i : Invocation W S L),
      (locations.foldl (invokeFuzzLocation env triggerType) i).fuzzLocationsToRemove =
        i.fuzzLocationsToRemove := by
    intro locations
    induction locations with
    | nil => exact fun i => rfl
    | cons l locations ih =>
        intro i
        rw [List.foldl_cons, ih]
        simp only [invokeFuzzLocation, h, Bool.false_eq_true, if_false]
        split <;> rfl
  show (st.fuzzLocation.foldl (invokeFuzzLocation env triggerType)
    ⟨[], snapshot, st.world⟩).fuzzLocationsToRemove.foldl List.erase st.fuzzLocation = _
  rw [hfold]
  rfl

theorem restoreAndFuzz_fuzzLocation (h : ∀ l w, (env.isFinished l w).1 = false) (snapshot : S)
    (st : FuzzState W S L) : (restoreAndFuzz env snapshot st).fuzzLocation = st.fuzzLocation := by
  show (invokeFuzzLocations env .start _ _).2.fuzzLocation = _
  rw [invokeFuzzLocations_fuzzLocation h]
  exact invokeFuzzLocations_fuzzLocation h .end_ snapshot st

theorem loopBody_fuzzLocation (h : ∀ l w, (env.isFinished l w).1 = false) {st' : FuzzState W S L}
    (hbody : loopBody env bps st = .ok st') : st'.fuzzLocation = st.fuzzLocation := by
  have hreach : (reachSnapshot env bps st).fuzzLocation = st.fuzzLocation := by
    rw [reachSnapshot]
    split
    · split <;> rfl
    · rfl
  rw [loopBody] at hbody
  split at hbody
  · cases hbody
    exact hreach
  · cases hbody
  · split at hbody
    · cases hbody
      rw [restoreAndFuzz_fuzzLocation h, hreach]
    · split at hbody
      · cases hbody
        rw [restoreAndFuzz_fuzzLocation h]
        exact hreach
      · cases hbody
        exact hreach

/-- With such locations the loop does not end. -/
theorem fuzzLoop_fuzzLocation (h : ∀ l w, (env.isFinished l w).1 = false)
    {stops later : List DebuggerStop} {st' : FuzzState W S L}
    (hloop : fuzzLoop env bps stops st = .ok (st', later)) :
    st'.fuzzLocation = st.fuzzLocation := by
  induction stops generalizing st later with
  | nil =>
      rw [fuzzLoop] at hloop
      split at hloop
      · cases hloop
        rfl
      · obtain ⟨next, hbody, hret⟩ := bind_ok.mp hloop
        cases hret
        exact loopBody_fuzzLocation h hbody
  | cons stop rest ih =>
      rw [fuzzLoop] at hloop
      split at hloop
      · cases hloop
        rfl
      · obtain ⟨next, hbody, hrest⟩ := bind_ok.mp hloop
        obtain ⟨⟨st'', later'⟩, hnext, hret⟩ := bind_ok.mp hrest
        cases hret
        rw [ih hnext]
        show next.fuzzLocation = _
        exact loopBody_fuzzLocation h hbody

end

end InMemoryFuzzing.Fuzz

import InMemoryFuzzing.Fuzz.LoopLogic

/-!
# Rounds of a session

A round is a call of `RestoreAndFuzz`. The stops that the loop has looked at say with which
stops the runs have ended (`runEnds`). What the start of run 1 and a round with its stop keep
holds of a session (`EndsInvariant.fuzz`); where only the number of rounds matters, it is
enough that the other steps of the loop keep it and a round takes it from `n` to `n + 1`
(`RoundInvariant.fuzz`).
-/

namespace InMemoryFuzzing.Fuzz

open Base Platform DotNet DataLog

variable {W S L : Type} [DecidableEq L]

omit [DecidableEq L] in
/-- The snapshot is made at the first stop that allows it. -/
theorem reachSnapshot_isSome (env : Environment W S L) (bps : Breakpoints)
    {st : FuzzState W S L} {stop : DebuggerStop} (hstop : st.lastDebuggerStop = some stop) :
    (reachSnapshot env bps st).snapshot.isSome =
        (st.snapshot.isSome || isSnapshotStop bps stop) ∧
      (reachSnapshot env bps st).lastDebuggerStop = some stop := by
  unfold reachSnapshot
  cases hsnapshot : st.snapshot with
  | some snapshot =>
      rw [hstop]
      exact ⟨by rw [hsnapshot, Option.isSome_some, Bool.true_or], rfl⟩
  | none =>
      rw [hstop]
      dsimp only
      by_cases hreached : bps.snapshotBreakpoint = stop.address ∧ stop.stopReason = .breakpoint
      · have htrue : isSnapshotStop bps stop = true := by
          rw [isSnapshotStop, hreached.1, hreached.2]
          simp
        rw [if_pos hreached, htrue]
        exact ⟨rfl, hstop⟩
      · have hfalse : isSnapshotStop bps stop = false := by
          rw [Bool.eq_false_iff]
          intro htrue
          rw [isSnapshotStop, Bool.and_eq_true, decide_eq_true_eq, decide_eq_true_eq] at htrue
          exact hreached ⟨htrue.1.symm, htrue.2⟩
        rw [if_neg hreached, hfalse, hsnapshot]
        exact ⟨rfl, hstop⟩

omit [DecidableEq L] in
theorem reachSnapshot_of_none {env : Environment W S L} {bps : Breakpoints}
    {st : FuzzState W S L} (hnone : st.lastDebuggerStop = none) :
    reachSnapshot env bps st = st := by
  unfold reachSnapshot
  cases hsnapshot : st.snapshot with
  | none => rw [hnone]
  | some s => rfl

/-- What the body of the loop does: it restores the snapshot at the end of a run, or leaves
the state with the snapshot that it may have made. -/
theorem loopBody_cases {env : Environment W S L} {bps : Breakpoints} {st st' : FuzzState W S L}
    (h : loopBody env bps st = .ok st') :
    (∃ stop snapshot, st.lastDebuggerStop = some stop ∧
      (st.snapshot.isSome || isSnapshotStop bps stop) = true ∧ endsRun bps stop = true ∧
      (reachSnapshot env bps st).snapshot = some snapshot ∧
      st' = restoreAndFuzz env snapshot (if stop.stopReason ≠ .breakpoint
        then (reachSnapshot env bps st).logDebuggerStop stop else reachSnapshot env bps st)) ∨
    (st' = reachSnapshot env bps st ∧ ∀ stop, st.lastDebuggerStop = some stop →
      (st.snapshot.isSome || isSnapshotStop bps stop) = false ∨ endsRun bps stop = false) := by
  cases hlast : st.lastDebuggerStop with
  -- without a last stop the body does nothing, or raises
  | none =>
      right
      refine ⟨?_, fun stop hstop => by cases hstop⟩
      unfold loopBody at h
      rw [reachSnapshot_of_none hlast] at h ⊢
      cases hsnapshot : st.snapshot with
      | none =>
          simp only [hsnapshot] at h
          cases h
          rfl
      | some s =>
          simp only [hsnapshot, hlast] at h
          cases h
  | some stop =>
      obtain ⟨hsome, hlast'⟩ := reachSnapshot_isSome env bps hlast
      cases hsnapshot : (reachSnapshot env bps st).snapshot with
      | none =>
          right
          rw [hsnapshot, Option.isSome_none] at hsome
          refine ⟨?_, fun stop' hstop' => ?_⟩
          · unfold loopBody at h
            simp only [hsnapshot] at h
            cases h
            rfl
          · cases hstop'
            exact Or.inl hsome.symm
      | some snapshot =>
          rw [hsnapshot, Option.isSome_some] at hsome
          rw [loopBody_of_snapshot rfl hsnapshot hlast', Except.ok.injEq] at h
          cases hends : endsRun bps stop with
          | true =>
              left
              rw [hends, if_pos rfl] at h
              exact ⟨stop, snapshot, rfl, hsome.symm, hends, rfl, h.symm⟩
          | false =>
              right
              rw [hends, if_neg Bool.false_ne_true] at h
              refine ⟨h.symm, fun stop' hstop' => ?_⟩
              cases hstop'
              exact Or.inr hends

/-- Kept by the loop, for the stops with which the runs have ended. -/
structure EndsInvariant (env : Environment W S L)
    (P : List DebuggerStop → FuzzState W S L → Prop) : Prop where
  /-- Run 1 is started, and the snapshot is made. -/
  snapshot : ∀ (st : FuzzState W S L), P [] st → st.snapshot = none → P []
    { st.loggerStartFuzzRun env with
      snapshot := some (env.createSnapshot (st.loggerStartFuzzRun env).world).1
      world := (env.createSnapshot (st.loggerStartFuzzRun env).world).2 }
  /-- `DebugContinue` returns. -/
  continued : ∀ ends (st : FuzzState W S L) stop, P ends st → P ends (debugContinue env stop st)
  /-- A stop ends the run; an error is logged. -/
  round : ∀ ends (st : FuzzState W S L) snapshot stop, P ends st → st.snapshot.isSome = true →
    P (ends ++ [stop]) (restoreAndFuzz env snapshot
      (if stop.stopReason ≠ .breakpoint then st.logDebuggerStop stop else st))

namespace EndsInvariant

variable {env : Environment W S L} {bps : Breakpoints}
  {P : List DebuggerStop → FuzzState W S L → Prop}

/-- What holds at the top of the loop, when it has looked at `examined`. -/
structure AtTop (P : List DebuggerStop → FuzzState W S L → Prop) (bps : Breakpoints)
    (examined : List DebuggerStop) (st : FuzzState W S L) : Prop where
  holds : P (runEnds bps examined) st
  snapshot : st.snapshot.isSome = started bps examined
  stopped : started bps examined = true → st.lastDebuggerStop ≠ none

omit [DecidableEq L] in
theorem AtTop.no_snapshot {examined : List DebuggerStop} {st : FuzzState W S L}
    (h : AtTop P bps examined st) (hnone : st.snapshot = none) : P [] st := by
  have hstarted : started bps examined = false := by
    rw [← h.snapshot, hnone, Option.isSome_none]
  have hholds := h.holds
  rw [runEnds_of_not_started hstarted] at hholds
  exact hholds

theorem reachSnapshot (h : EndsInvariant env P) {examined : List DebuggerStop}
    {st : FuzzState W S L} (htop : AtTop P bps examined st) :
    P (runEnds bps examined) (reachSnapshot env bps st) := by
  unfold Fuzz.reachSnapshot
  split
  · rename_i stop hnone hlast
    split
    · have hstarted : started bps examined = false := by
        rw [← htop.snapshot, hnone, Option.isSome_none]
      rw [runEnds_of_not_started hstarted]
      exact h.snapshot st (htop.no_snapshot hnone) hnone
    · exact htop.holds
  · exact htop.holds

/-- The body of the loop looks at the last stop. -/
theorem loopBody (h : EndsInvariant env P) {examined : List DebuggerStop} {st st' : FuzzState W S L}
    (htop : AtTop P bps examined st) (hbody : loopBody env bps st = .ok st') :
    AtTop P bps (examined ++ st.lastDebuggerStop.toList) st' := by
  have hreached := h.reachSnapshot htop
  rcases loopBody_cases hbody with ⟨stop, snapshot, hlast, hany, hends, hsnapshot, rfl⟩ | ⟨rfl, hidle⟩
  · -- a run ends
    have hlast' := (reachSnapshot_isSome env bps hlast).2
    rw [htop.snapshot, ← started_append] at hany
    rw [hlast, Option.toList_some]
    refine ⟨?_, ?_, ?_⟩
    · rw [runEnds_append hany, if_pos hends]
      refine h.round _ _ snapshot stop hreached ?_
      rw [hsnapshot]
      rfl
    · rw [hany]
      exact (restoreAndFuzz_loggers _ _).2.2.2.2.1
    · intro _
      rw [(restoreAndFuzz_loggers _ _).2.2.2.2.2]
      split
      · show (Fuzz.reachSnapshot env bps st).lastDebuggerStop ≠ none
        rw [hlast']
        exact Option.some_ne_none stop
      · rw [hlast']
        exact Option.some_ne_none stop
  -- no run ends: the stop is looked at, and at most the snapshot is made
  · cases hlast : st.lastDebuggerStop with
    | none =>
        rw [reachSnapshot_of_none hlast, Option.toList_none, List.append_nil]
        exact htop
    | some stop =>
        obtain ⟨hsome, hlast'⟩ := reachSnapshot_isSome env bps hlast
        have hidle' := hidle stop hlast
        rw [htop.snapshot, ← started_append] at hsome hidle'
        rw [Option.toList_some]
        refine ⟨?_, hsome, fun _ => hlast' ▸ Option.some_ne_none stop⟩
        cases hstarted : started bps (examined ++ [stop]) with
        | false =>
            have hbefore : started bps examined = false := by
              rw [started_append, Bool.or_eq_false_iff] at hstarted
              exact hstarted.1
            rw [runEnds_of_not_started hstarted, ← runEnds_of_not_started hbefore]
            exact hreached
        | true =>
            rw [hstarted] at hidle'
            have hends : endsRun bps stop = false := by
              rcases hidle' with hfalse | hends
              · cases hfalse
              · exact hends
            rw [runEnds_append hstarted, hends, if_neg Bool.false_ne_true, List.append_nil]
            exact hreached

/-- The loop, from a state in which `examined` have been looked at. -/
theorem fuzzLoop (h : EndsInvariant env P) {stops examined later : List DebuggerStop}
    {st st' : FuzzState W S L} (htop : AtTop P bps examined st)
    (hloop : fuzzLoop env bps stops st = .ok (st', later)) :
    AtTop P bps (examined ++ later) st' := by
  induction stops generalizing st examined later with
  | nil =>
      unfold Fuzz.fuzzLoop at hloop
      split at hloop
      · cases hloop
        rw [List.append_nil]
        exact htop
      · obtain ⟨next, hbody, hret⟩ := bind_ok.mp hloop
        cases hret
        exact h.loopBody htop hbody
  | cons stop rest ih =>
      unfold Fuzz.fuzzLoop at hloop
      split at hloop
      · cases hloop
        rw [List.append_nil]
        exact htop
      · obtain ⟨next, hbody, hrest⟩ := bind_ok.mp hloop
        obtain ⟨⟨st'', later'⟩, hnext, hret⟩ := bind_ok.mp hrest
        cases hret
        have hafter := h.loopBody htop hbody
        rw [← List.append_assoc]
        exact ih ⟨h.continued _ next stop hafter.holds, hafter.snapshot,
          fun _ => Option.some_ne_none stop⟩ hnext

/-- A session has the invariant with the stops that have ended its runs. -/
theorem fuzz (h : EndsInvariant env P) {stops examined : List DebuggerStop}
    {st st' : FuzzState W S L} (hinit : P [] st.incrementLoggerPrefix) (hnone : st.snapshot = none)
    (hfuzz : fuzz env bps stops st = .ok (st', examined)) :
    AtTop P bps examined st' := by
  have htop : AtTop P bps [] st.incrementLoggerPrefix := by
    refine ⟨hinit, ?_, ?_⟩
    · show st.snapshot.isSome = _
      rw [hnone]
      rfl
    · intro hstarted
      cases hstarted
  exact h.fuzzLoop htop hfuzz

end EndsInvariant

/-- Kept by the loop outside `RestoreAndFuzz`, and advanced by a round. -/
structure RoundInvariant (env : Environment W S L) (P : Nat → FuzzState W S L → Prop) : Prop where
  /-- The snapshot is made. -/
  snapshot : ∀ n (st : FuzzState W S L), P n st → P n
    { st.loggerStartFuzzRun env with
      snapshot := some (env.createSnapshot (st.loggerStartFuzzRun env).world).1
      world := (env.createSnapshot (st.loggerStartFuzzRun env).world).2 }
  /-- An error is logged. -/
  log : ∀ n (st : FuzzState W S L) stop, P n st → P n (st.logDebuggerStop stop)
  /-- `DebugContinue` returns. -/
  continued : ∀ n (st : FuzzState W S L) stop, P n st → P n (debugContinue env stop st)
  round : ∀ n (st : FuzzState W S L) snapshot, P n st → P (n + 1) (restoreAndFuzz env snapshot st)

namespace RoundInvariant

variable {env : Environment W S L} {bps : Breakpoints} {P : Nat → FuzzState W S L → Prop}

theorem ends (h : RoundInvariant env P) :
    EndsInvariant env fun ends st => P ends.length st where
  snapshot st hP _ := h.snapshot 0 st hP
  continued _ st stop hP := h.continued _ st stop hP
  round ends st snapshot stop hP _ := by
    rw [List.length_append, List.length_singleton]
    apply h.round
    split
    · exact h.log _ st stop hP
    · exact hP

/-- A session has the invariant with its number of rounds. -/
theorem fuzz (h : RoundInvariant env P) {stops examined : List DebuggerStop}
    {st st' : FuzzState W S L} (hinit : P 0 st.incrementLoggerPrefix) (hnone : st.snapshot = none)
    (hfuzz : fuzz env bps stops st = .ok (st', examined)) :
    P (runEnds bps examined).length st' :=
  (h.ends.fuzz hinit hnone hfuzz).holds

end RoundInvariant

end InMemoryFuzzing.Fuzz

import InMemoryFuzzing.Fuzz.InMemory
import InMemoryFuzzing.Fuzz.Rounds
import InMemoryFuzzing.Fuzz.Theorems.Logging

/-!
# Where the snapshot is

A technique replaces the snapshot by one at the address where the target is stopped. At the
start of a run that is the address of the snapshot, to which the target has been restored.
At the end of a run it is the restore breakpoint, or where the program has crashed. So the
snapshot stays where it is in a session in which no location is triggered at the end of a
run that ends elsewhere, and in no other one (`snapshot_kept_iff`).
-/

namespace InMemoryFuzzing.Fuzz

open Base Platform DotNet DataLog

variable {L G : Type}

/-! ## The connector -/

/-- gdb sets the breakpoints it is asked for. -/
def Gdb.SetsBreakpoints (gdb : Gdb) : Prop := ∀ n, gdb.setsBreakpoint n = true

/-- A new snapshot is where the target is. -/
theorem createSnapshot_address {gdb : Gdb} (hgdb : gdb.SetsBreakpoints) {c c' : Connector}
    {snapshot : GDBSnapshot} {a : UInt64} (hstop : c.lastDebuggerStop = some a)
    (h : c.createSnapshot gdb = .ok (snapshot, c')) :
    snapshot.myBreakpoint = some a ∧ c'.lastDebuggerStop = some a := by
  unfold Connector.createSnapshot at h
  rw [hstop] at h
  dsimp only at h
  split at h
  · cases h
  · rw [hgdb, if_pos rfl] at h
    cases h
    exact ⟨rfl, rfl⟩

/-- So is the one that a technique leaves. -/
theorem recreateSnapshot_address {gdb : Gdb} (hgdb : gdb.SetsBreakpoints) {c c' : Connector}
    {snapshot snapshot' : GDBSnapshot} {a : UInt64} (hstop : c.lastDebuggerStop = some a)
    (h : recreateSnapshot gdb snapshot c = .ok (snapshot', c')) :
    snapshot'.myBreakpoint = some a ∧ c'.lastDebuggerStop = some a := by
  obtain ⟨_, -, hrest⟩ := bind_ok.mp h
  obtain ⟨mid, haccess, hcreate⟩ := bind_ok.mp hrest
  have hmid : mid.lastDebuggerStop = some a := by
    unfold Connector.accessMemory at haccess
    split at haccess
    · cases haccess
    · cases haccess
      exact hstop
  exact createSnapshot_address hgdb hmid hcreate

theorem techRun_address {gdb : Gdb} (hgdb : gdb.SetsBreakpoints) {tech : FuzzTech}
    {c c' : Connector} {snapshot snapshot' : GDBSnapshot} {a : UInt64}
    (hstop : c.lastDebuggerStop = some a)
    (h : tech.run gdb snapshot c = .ok (snapshot', c')) :
    snapshot'.myBreakpoint = some a ∧ c'.lastDebuggerStop = some a := by
  cases tech with
  | singleValue => exact recreateSnapshot_address hgdb hstop h
  | pointerValue => exact recreateSnapshot_address hgdb hstop h

/-- The target is restored to the address of the snapshot. -/
theorem restore_address {snapshot : GDBSnapshot} {c c' : Connector} {a : UInt64}
    (hsnapshot : snapshot.myBreakpoint = some a) (h : snapshot.restore c = .ok c') :
    c'.lastDebuggerStop = some a := by
  unfold GDBSnapshot.restore at h
  generalize c.reverseStops = stops at h
  induction stops with
  | nil => cases h
  | cons stop rest ih =>
      unfold GDBSnapshot.restoreLoop at h
      rw [hsnapshot] at h
      cases hb : stop.breakpoint with
      | none =>
          rw [hb] at h
          cases h
      | some b =>
          rw [hb] at h
          dsimp only at h
          split at h
          · rename_i heq
            cases h
            rw [← heq, ← stop.at_breakpoint b hb]
          · exact ih h

/-! ## A pass over the locations -/

/-- A trigger that says no is as before. -/
theorem Trigger.isTriggered_false (t : Trigger) (triggerType : TriggerEnum)
    (data : Option UInt64) :
    (t.isTriggered triggerType data).1 = false → (t.isTriggered triggerType data).2 = t := by
  unfold Trigger.isTriggered
  split
  · intro h
    cases h
  · split
    · intro h
      cases h
    · intro _
      split <;> rfl

theorem anyTriggered_false {triggerType : TriggerEnum} {data : Option UInt64} {ts : List Trigger}
    (h : (BaseFuzzLocation.anyTriggered triggerType data ts).1 = false) :
    (BaseFuzzLocation.anyTriggered triggerType data ts).2 = ts := by
  induction ts with
  | nil => rfl
  | cons t rest ih =>
      have hsame := t.isTriggered_false triggerType data
      rw [BaseFuzzLocation.anyTriggered] at h ⊢
      generalize t.isTriggered triggerType data = asked at h hsame
      obtain ⟨triggered, t'⟩ := asked
      cases triggered with
      | true => cases h
      | false =>
          have ht : t' = t := hsame rfl
          subst ht
          exact congrArg (t' :: ·) (ih h)

theorem isTriggered_false {l : BaseFuzzLocation G} {triggerType : TriggerEnum}
    {data : Option UInt64} (h : (l.isTriggered triggerType data).1 = false) :
    (l.isTriggered triggerType data).2 = l := by
  unfold BaseFuzzLocation.isTriggered at h ⊢
  cases hts : l.triggers with
  | none => rfl
  | some ts =>
      rw [hts] at h
      show { l with triggers := some _ } = l
      rw [anyTriggered_false h, ← hts]

/-- The technique has been invoked where the snapshot is. -/
def TechInvocation.AtSnapshot (i : TechInvocation) : Prop := ∃ a, i = ⟨some a, some a⟩

variable [DecidableEq L] {gdb : Gdb}

/-- Every technique has been invoked at the snapshot, and this one and the target are at
`a`. -/
structure PassInv (a : UInt64) (i : Invocation (InMemoryWorld L G) GDBSnapshot L) : Prop where
  invocations : ∀ t ∈ i.world.invocations, t.AtSnapshot
  snapshot : i.world.fault = none → i.snapshot.myBreakpoint = some a
  target : i.world.fault = none → i.world.connector.lastDebuggerStop = some a

/-- After a fault the locations are left alone. -/
theorem invokeFuzzLocation_fault {i : Invocation (InMemoryWorld L G) GDBSnapshot L} {f : Fault}
    (h : i.world.fault = some f) (triggerType : TriggerEnum) (l : L) :
    invokeFuzzLocation (InMemoryWorld.environment gdb) triggerType i l = i := by
  unfold invokeFuzzLocation InMemoryWorld.environment
  simp [h]

/-- The location is not finished and triggered. -/
def InMemoryWorld.runs (w : InMemoryWorld L G) (triggerType : TriggerEnum) (l : L) : Bool :=
  !(w.locations l).base.isFinished && ((w.locations l).base.isTriggered triggerType none).1

/-- The location has been asked whether it is triggered. -/
def InMemoryWorld.asked (w : InMemoryWorld L G) (triggerType : TriggerEnum) (l : L) :
    InMemoryWorld L G :=
  w.setBase l ((w.locations l).base.isTriggered triggerType none).2

/-- Without one, a location is removed, asked or run. -/
theorem invokeFuzzLocation_cases (gdb : Gdb) {i : Invocation (InMemoryWorld L G) GDBSnapshot L}
    (h : i.world.fault = none) (triggerType : TriggerEnum) (l : L) :
    (i.world.runs triggerType l = false ∧
      ∃ remove, invokeFuzzLocation (InMemoryWorld.environment gdb) triggerType i l =
        ⟨remove, i.snapshot, i.world⟩) ∨
    (i.world.runs triggerType l = true ∧
      invokeFuzzLocation (InMemoryWorld.environment gdb) triggerType i l =
        ⟨i.fuzzLocationsToRemove, ((i.world.asked triggerType l).run gdb l i.snapshot).1,
          ((i.world.asked triggerType l).run gdb l i.snapshot).2⟩) := by
  have hset : ∀ base, (i.world.setBase l base).fault = none := fun _ => h
  unfold invokeFuzzLocation InMemoryWorld.environment InMemoryWorld.runs
  simp only [h, hset, Option.isSome_none, Bool.false_eq_true, if_false]
  cases hfinished : (i.world.locations l).base.isFinished with
  | true => exact Or.inl ⟨rfl, _, rfl⟩
  | false =>
      simp only [Bool.false_eq_true, if_false]
      cases htriggered : ((i.world.locations l).base.isTriggered triggerType none).1 with
      | false =>
          left
          refine ⟨rfl, i.fuzzLocationsToRemove, ?_⟩
          have hsame : i.world.setBase l (i.world.locations l).base = i.world := by
            rw [InMemoryWorld.setBase, Function.update_eq_self]
          rw [if_neg Bool.false_ne_true, isTriggered_false htriggered, hsame]
      | true =>
          right
          exact ⟨rfl, rfl⟩

/-- `Run` adds its invocation. -/
theorem run_invocations (w : InMemoryWorld L G) (l : L) (snapshot : GDBSnapshot) :
    (w.run gdb l snapshot).2.invocations =
      w.invocations ++ [⟨w.connector.lastDebuggerStop, snapshot.myBreakpoint⟩] := by
  unfold InMemoryWorld.run
  dsimp only
  split <;> rfl

/-- If the target is at the snapshot, it still is after `Run`, with the new one. -/
theorem run_address (hgdb : gdb.SetsBreakpoints) {w : InMemoryWorld L G} {a : UInt64}
    (htarget : w.connector.lastDebuggerStop = some a) (l : L) (snapshot : GDBSnapshot)
    (hfault : (w.run gdb l snapshot).2.fault = none) :
    (w.run gdb l snapshot).1.myBreakpoint = some a ∧
      (w.run gdb l snapshot).2.connector.lastDebuggerStop = some a := by
  unfold InMemoryWorld.run at hfault ⊢
  dsimp only at hfault ⊢
  split at hfault
  · rename_i hrun
    exact techRun_address hgdb htarget hrun
  · cases hfault

/-- One location of a pass at the snapshot. -/
theorem invokeFuzzLocation_pass (hgdb : gdb.SetsBreakpoints) {a : UInt64}
    {i : Invocation (InMemoryWorld L G) GDBSnapshot L} (h : PassInv a i)
    (triggerType : TriggerEnum) (l : L) :
    PassInv a (invokeFuzzLocation (InMemoryWorld.environment gdb) triggerType i l) := by
  cases hfault : i.world.fault with
  | some f =>
      rw [invokeFuzzLocation_fault hfault]
      exact h
  | none =>
      have htarget := h.target hfault
      have hsnapshot := h.snapshot hfault
      rcases invokeFuzzLocation_cases gdb hfault triggerType l with
        ⟨-, remove, heq⟩ | ⟨-, heq⟩
      · rw [heq]
        exact ⟨h.invocations, h.snapshot, h.target⟩
      · have haddress := run_address hgdb (w := i.world.asked triggerType l) htarget l i.snapshot
        rw [heq]
        refine ⟨?_, ?_, ?_⟩
        · intro t ht
          rw [run_invocations, List.mem_append, List.mem_singleton] at ht
          rcases ht with hold | rfl
          · exact h.invocations t hold
          · refine ⟨a, ?_⟩
            rw [hsnapshot]
            exact congrArg (TechInvocation.mk · (some a)) htarget
        · exact fun hnone => (haddress hnone).1
        · exact fun hnone => (haddress hnone).2

/-- A pass at the snapshot. -/
theorem pass_kept (hgdb : gdb.SetsBreakpoints) {a : UInt64} (triggerType : TriggerEnum)
    (locations : List L) {i : Invocation (InMemoryWorld L G) GDBSnapshot L} (h : PassInv a i) :
    PassInv a (locations.foldl (invokeFuzzLocation (InMemoryWorld.environment gdb) triggerType) i) :=
  by
  induction locations generalizing i with
  | nil => exact h
  | cons l rest ih => exact ih (invokeFuzzLocation_pass hgdb h triggerType l)

/-- A pass in which no location runs changes nothing. -/
theorem pass_idle (gdb : Gdb) {triggerType : TriggerEnum} {locations : List L}
    {i : Invocation (InMemoryWorld L G) GDBSnapshot L} (hfault : i.world.fault = none)
    (h : ∀ l ∈ locations, i.world.runs triggerType l = false) :
    (locations.foldl (invokeFuzzLocation (InMemoryWorld.environment gdb) triggerType)
        i).snapshot = i.snapshot ∧
      (locations.foldl (invokeFuzzLocation (InMemoryWorld.environment gdb) triggerType)
        i).world = i.world := by
  induction locations generalizing i with
  | nil => exact ⟨rfl, rfl⟩
  | cons l rest ih =>
      rw [List.forall_mem_cons] at h
      rcases invokeFuzzLocation_cases gdb hfault triggerType l with
        ⟨-, remove, heq⟩ | ⟨hruns, -⟩
      · rw [List.foldl_cons, heq]
        exact ih hfault h.2
      · rw [h.1] at hruns
        cases hruns

/-- No invocation is forgotten. -/
theorem invokeFuzzLocation_invocations (triggerType : TriggerEnum)
    (i : Invocation (InMemoryWorld L G) GDBSnapshot L) (l : L) :
    i.world.invocations <+:
      (invokeFuzzLocation (InMemoryWorld.environment gdb) triggerType i l).world.invocations := by
  cases hfault : i.world.fault with
  | some f =>
      rewrite [invokeFuzzLocation_fault hfault]
      exact List.prefix_refl _
  | none =>
      rcases invokeFuzzLocation_cases gdb hfault triggerType l with
        ⟨-, remove, heq⟩ | ⟨-, heq⟩
      · rewrite [heq]
        exact List.prefix_refl _
      · rw [heq]
        show _ <+: ((i.world.asked triggerType l).run gdb l i.snapshot).2.invocations
        rw [run_invocations]
        exact List.prefix_append _ _

theorem pass_invocations (gdb : Gdb) (triggerType : TriggerEnum) (locations : List L)
    (i : Invocation (InMemoryWorld L G) GDBSnapshot L) :
    i.world.invocations <+: (locations.foldl
      (invokeFuzzLocation (InMemoryWorld.environment gdb) triggerType) i).world.invocations := by
  induction locations generalizing i with
  | nil => exact List.prefix_refl _
  | cons l rest ih => exact (invokeFuzzLocation_invocations triggerType i l).trans (ih _)

/-- A pass away from the snapshot, in which a location runs. -/
theorem pass_away (gdb : Gdb) {triggerType : TriggerEnum} {locations : List L} {a b : UInt64} (hne : a ≠ b)
    {i : Invocation (InMemoryWorld L G) GDBSnapshot L} (hfault : i.world.fault = none)
    (htarget : i.world.connector.lastDebuggerStop = some a)
    (hsnapshot : i.snapshot.myBreakpoint = some b)
    (h : ∃ l ∈ locations, i.world.runs triggerType l = true) :
    ∃ t ∈ (locations.foldl (invokeFuzzLocation (InMemoryWorld.environment gdb) triggerType)
      i).world.invocations, ¬t.AtSnapshot := by
  induction locations generalizing i with
  | nil =>
      obtain ⟨l, hl, -⟩ := h
      cases hl
  | cons l rest ih =>
      rw [List.foldl_cons]
      rcases invokeFuzzLocation_cases gdb hfault triggerType l with
        ⟨hidle, remove, heq⟩ | ⟨hruns, heq⟩
      · rw [heq]
        refine ih hfault htarget hsnapshot ?_
        obtain ⟨l', hl', hruns'⟩ := h
        rcases List.mem_cons.mp hl' with rfl | hrest
        · rw [hidle] at hruns'
          cases hruns'
        · exact ⟨l', hrest, hruns'⟩
      · refine ⟨⟨some a, some b⟩, ?_, ?_⟩
        · refine (pass_invocations gdb triggerType rest _).subset ?_
          rw [heq]
          show _ ∈ ((i.world.asked triggerType l).run gdb l i.snapshot).2.invocations
          rw [run_invocations, hsnapshot]
          refine List.mem_append_right _ (List.mem_singleton.mpr ?_)
          exact congrArg (TechInvocation.mk · (some b)) htarget.symm
        · rintro ⟨c, hc⟩
          cases hc
          exact hne rfl

/-! ## The loop -/

/-- Every technique has been invoked with the target at the snapshot, and the snapshot is at
its breakpoint, as long as the session goes on. -/
structure SnapshotKept (bps : Breakpoints) (st : FuzzState (InMemoryWorld L G) GDBSnapshot L) :
    Prop where
  invocations : ∀ t ∈ st.world.invocations, t.AtSnapshot
  snapshot : st.world.fault = none → ∀ s, st.snapshot = some s →
    s.myBreakpoint = some bps.snapshotBreakpoint

/-- If this iteration of the loop restores the snapshot, then the target is there already, or
no location runs at the end of the run. -/
def MeetsSnapshot (bps : Breakpoints) (st : FuzzState (InMemoryWorld L G) GDBSnapshot L) : Prop :=
  ∀ stop, st.world.fault = none → st.lastDebuggerStop = some stop →
    (st.snapshot.isSome || isSnapshotStop bps stop) = true → endsRun bps stop = true →
    stop.address = bps.snapshotBreakpoint ∨ ∀ l ∈ st.fuzzLocation, st.world.runs .end_ l = false

/-- The loop, with a condition on the state at the top of each iteration. -/
def EachIteration {W S : Type} (env : Environment W S L) (bps : Breakpoints)
    (P : FuzzState W S L → Prop) : List DebuggerStop → FuzzState W S L → Prop
  | [], st => st.fuzzLocation ≠ [] → P st
  | stop :: rest, st => st.fuzzLocation ≠ [] → P st ∧
      ∀ st', loopBody env bps st = .ok st' → EachIteration env bps P rest (debugContinue env stop st')

/-- What holds at the top of an iteration. -/
structure SnapshotTop (bps : Breakpoints) (st : FuzzState (InMemoryWorld L G) GDBSnapshot L) :
    Prop where
  kept : SnapshotKept bps st
  target : st.world.fault = none →
    st.world.connector.lastDebuggerStop = st.lastDebuggerStop.map DebuggerStop.address

theorem nextFuzzRun_world (gdb : Gdb) (locations : List L) (w : InMemoryWorld L G) :
    (locations.foldl (fun w l => (InMemoryWorld.environment gdb).nextFuzzRun l w) w).fault =
        w.fault ∧
      (locations.foldl (fun w l => (InMemoryWorld.environment gdb).nextFuzzRun l w) w).connector =
        w.connector ∧
      (locations.foldl (fun w l => (InMemoryWorld.environment gdb).nextFuzzRun l w)
        w).invocations = w.invocations := by
  induction locations generalizing w with
  | nil => exact ⟨rfl, rfl, rfl⟩
  | cons l rest ih =>
      have hone : ((InMemoryWorld.environment gdb).nextFuzzRun l w).fault = w.fault ∧
          ((InMemoryWorld.environment gdb).nextFuzzRun l w).connector = w.connector ∧
          ((InMemoryWorld.environment gdb).nextFuzzRun l w).invocations = w.invocations := by
        unfold InMemoryWorld.environment
        dsimp only
        split <;> exact ⟨rfl, rfl, rfl⟩
      obtain ⟨hfault, hconnector, hinvocations⟩ :=
        ih ((InMemoryWorld.environment gdb).nextFuzzRun l w)
      rw [List.foldl_cons]
      exact ⟨hfault.trans hone.1, hconnector.trans hone.2.1, hinvocations.trans hone.2.2⟩

/-- The world behind `Restore` of a snapshot at `a`. -/
theorem restore_world (gdb : Gdb) (snapshot : GDBSnapshot) (w : InMemoryWorld L G) :
    ((InMemoryWorld.environment gdb).restore snapshot w).invocations = w.invocations ∧
      (((InMemoryWorld.environment gdb).restore snapshot w).fault = none → w.fault = none ∧
        ∀ a, snapshot.myBreakpoint = some a →
          ((InMemoryWorld.environment gdb).restore snapshot w).connector.lastDebuggerStop =
            some a) := by
  unfold InMemoryWorld.environment
  dsimp only
  cases hfault : w.fault with
  | some f =>
      refine ⟨rfl, fun hnone => ?_⟩
      rw [Option.isSome_some, if_pos rfl, hfault] at hnone
      cases hnone
  | none =>
      rw [Option.isSome_none, if_neg Bool.false_ne_true]
      unfold InMemoryWorld.restore
      cases hrestore : snapshot.restore w.connector with
      | error f =>
          refine ⟨rfl, fun hnone => ?_⟩
          cases hnone
      | ok c => exact ⟨rfl, fun _ => ⟨rfl, fun a ha => restore_address ha hrestore⟩⟩

/-- `RestoreAndFuzz`, if the techniques have left the snapshot where it is by the end of the
run. -/
theorem restoreAndFuzz_kept (hgdb : gdb.SetsBreakpoints) {bps : Breakpoints}
    {snapshot : GDBSnapshot} {st : FuzzState (InMemoryWorld L G) GDBSnapshot L}
    {i : Invocation (InMemoryWorld L G) GDBSnapshot L}
    (hend : st.fuzzLocation.foldl (invokeFuzzLocation (InMemoryWorld.environment gdb) .end_)
      ⟨[], snapshot, st.world⟩ = i)
    (hinvocations : ∀ t ∈ i.world.invocations, t.AtSnapshot)
    (hsnapshot : i.world.fault = none → i.snapshot.myBreakpoint = some bps.snapshotBreakpoint) :
    SnapshotKept bps (restoreAndFuzz (InMemoryWorld.environment gdb) snapshot st) := by
  obtain ⟨hkeeps, hrestored⟩ := restore_world gdb i.snapshot i.world
  -- the locations that are left, and the world in which the next run starts
  generalize hlocations : i.fuzzLocationsToRemove.foldl List.erase st.fuzzLocation = locations
  obtain ⟨hfault, hconnector, hsame⟩ := nextFuzzRun_world gdb locations
    ((InMemoryWorld.environment gdb).restore i.snapshot i.world)
  generalize hw : locations.foldl (fun w l => (InMemoryWorld.environment gdb).nextFuzzRun l w)
    ((InMemoryWorld.environment gdb).restore i.snapshot i.world) = w at hfault hconnector hsame
  have hpass : PassInv bps.snapshotBreakpoint (locations.foldl
      (invokeFuzzLocation (InMemoryWorld.environment gdb) .start) ⟨[], i.snapshot, w⟩) := by
    apply pass_kept hgdb
    refine ⟨?_, ?_, ?_⟩
    · intro t ht
      rw [hsame, hkeeps] at ht
      exact hinvocations t ht
    · intro hnone
      rw [hfault] at hnone
      exact hsnapshot (hrestored hnone).1
    · intro hnone
      rw [hfault] at hnone
      rw [hconnector]
      exact (hrestored hnone).2 _ (hsnapshot (hrestored hnone).1)
  subst hw hlocations hend
  refine ⟨hpass.invocations, ?_⟩
  intro hnone s hs
  have hlast : s = _ := (Option.some.inj hs).symm
  rw [hlast]
  exact hpass.snapshot hnone

theorem createSnapshot_world (hgdb : gdb.SetsBreakpoints) (w : InMemoryWorld L G) :
    ((InMemoryWorld.environment gdb).createSnapshot w).2.invocations = w.invocations ∧
      ((InMemoryWorld.environment gdb).createSnapshot w).2.locations = w.locations ∧
      (((InMemoryWorld.environment gdb).createSnapshot w).2.fault = none → w.fault = none ∧
        ∀ a, w.connector.lastDebuggerStop = some a →
          ((InMemoryWorld.environment gdb).createSnapshot w).1.myBreakpoint = some a ∧
          ((InMemoryWorld.environment gdb).createSnapshot w).2.connector.lastDebuggerStop =
            some a) := by
  unfold InMemoryWorld.environment
  dsimp only
  cases hfault : w.fault with
  | some f =>
      refine ⟨rfl, rfl, fun hnone => ?_⟩
      rw [Option.isSome_some, if_pos rfl, hfault] at hnone
      cases hnone
  | none =>
      rw [Option.isSome_none, if_neg Bool.false_ne_true]
      unfold InMemoryWorld.createSnapshot
      cases hcreate : w.connector.createSnapshot gdb with
      | error f =>
          refine ⟨rfl, rfl, fun hnone => ?_⟩
          cases hnone
      | ok created =>
          exact ⟨rfl, rfl, fun _ => ⟨rfl, fun a ha => createSnapshot_address hgdb ha hcreate⟩⟩

/-- The first stop at its breakpoint makes the snapshot, and nothing else. -/
theorem reachSnapshot_kept (hgdb : gdb.SetsBreakpoints) {bps : Breakpoints}
    {st : FuzzState (InMemoryWorld L G) GDBSnapshot L} (h : SnapshotTop bps st) :
    SnapshotTop bps (reachSnapshot (InMemoryWorld.environment gdb) bps st) ∧
      (reachSnapshot (InMemoryWorld.environment gdb) bps st).fuzzLocation = st.fuzzLocation ∧
      (reachSnapshot (InMemoryWorld.environment gdb) bps st).lastDebuggerStop =
        st.lastDebuggerStop ∧
      (reachSnapshot (InMemoryWorld.environment gdb) bps st).world.invocations =
        st.world.invocations ∧
      (reachSnapshot (InMemoryWorld.environment gdb) bps st).world.locations =
        st.world.locations ∧
      ((reachSnapshot (InMemoryWorld.environment gdb) bps st).world.fault = none →
        st.world.fault = none) := by
  unfold reachSnapshot
  split
  · rename_i stop hnone hlast
    split
    · rename_i hreached
      obtain ⟨hinvocations, hlocations, hcreated⟩ := createSnapshot_world hgdb st.world
      have htarget : ∀ hfault : st.world.fault = none,
          st.world.connector.lastDebuggerStop = some bps.snapshotBreakpoint := by
        intro hfault
        rw [h.target hfault, hlast, hreached.1]
        rfl
      refine ⟨⟨⟨?_, ?_⟩, ?_⟩, rfl, rfl, hinvocations, hlocations, fun hfault => (hcreated hfault).1⟩
      · intro t ht
        exact h.kept.invocations t (hinvocations ▸ ht)
      · intro hfault s hs
        cases hs
        obtain ⟨hbefore, haddress⟩ := hcreated hfault
        exact (haddress _ (htarget hbefore)).1
      · intro hfault
        obtain ⟨hbefore, haddress⟩ := hcreated hfault
        have hstop : st.lastDebuggerStop.map DebuggerStop.address =
            some bps.snapshotBreakpoint := by
          rw [hlast, hreached.1]
          rfl
        exact (haddress _ (htarget hbefore)).2.trans hstop.symm
    · exact ⟨h, rfl, rfl, rfl, rfl, id⟩
  · exact ⟨h, rfl, rfl, rfl, rfl, id⟩

/-- An iteration that meets the condition. -/
theorem loopBody_kept (hgdb : gdb.SetsBreakpoints) {bps : Breakpoints}
    {st st' : FuzzState (InMemoryWorld L G) GDBSnapshot L} (h : SnapshotTop bps st)
    (hmeets : MeetsSnapshot bps st)
    (hbody : loopBody (InMemoryWorld.environment gdb) bps st = .ok st') : SnapshotKept bps st' := by
  obtain ⟨htop, hlisted, hlast', -, hlocations, hfault'⟩ := reachSnapshot_kept hgdb h
  rcases loopBody_cases hbody with ⟨stop, snapshot, hlast, hany, hends, hsnapshot, rfl⟩ | ⟨rfl, -⟩
  · generalize hreached : reachSnapshot (InMemoryWorld.environment gdb) bps st = reached at *
    -- the error log touches neither the world nor the snapshot
    have hlogged : ∃ logged, (if stop.stopReason ≠ .breakpoint then reached.logDebuggerStop stop
        else reached) = logged ∧ logged.world = reached.world ∧
        logged.fuzzLocation = reached.fuzzLocation := by
      refine ⟨_, rfl, ?_, ?_⟩
      · split <;> rfl
      · split <;> rfl
    obtain ⟨logged, heq, hworld, hlist⟩ := hlogged
    rw [heq]
    have hat : logged.world.fault = none →
        snapshot.myBreakpoint = some bps.snapshotBreakpoint := by
      intro hfault
      exact htop.kept.snapshot (hworld ▸ hfault) snapshot hsnapshot
    have hinvocations : ∀ t ∈ logged.world.invocations, t.AtSnapshot :=
      hworld ▸ htop.kept.invocations
    cases hfault : logged.world.fault with
    -- behind a fault nothing is invoked any more
    | some f =>
        have hpass : PassInv bps.snapshotBreakpoint
            ⟨([] : List L), snapshot, logged.world⟩ := by
          refine ⟨hinvocations, fun hnone => ?_, fun hnone => ?_⟩
          · rw [hfault] at hnone
            cases hnone
          · rw [hfault] at hnone
            cases hnone
        have hpassed := pass_kept hgdb .end_ logged.fuzzLocation hpass
        exact restoreAndFuzz_kept hgdb rfl hpassed.invocations hpassed.snapshot
    | none =>
        have hbefore : st.world.fault = none := hfault' (hworld ▸ hfault)
        rcases hmeets stop hbefore hlast hany hends with haddress | hidle
        · have htarget : logged.world.connector.lastDebuggerStop =
              some bps.snapshotBreakpoint := by
            rw [hworld, htop.target (hworld ▸ hfault), hlast', hlast, ← haddress]
            rfl
          have hpassed := pass_kept hgdb .end_ logged.fuzzLocation
            (⟨hinvocations, hat, fun _ => htarget⟩ : PassInv bps.snapshotBreakpoint
              ⟨([] : List L), snapshot, logged.world⟩)
          exact restoreAndFuzz_kept hgdb rfl hpassed.invocations hpassed.snapshot
        -- no location runs at the end, so the snapshot is not touched before the restore
        · have hidle' : ∀ l ∈ logged.fuzzLocation, logged.world.runs .end_ l = false := by
            intro l hl
            rw [hlist, hlisted] at hl
            have hruns := hidle l hl
            unfold InMemoryWorld.runs at hruns ⊢
            rw [hworld, hlocations]
            exact hruns
          obtain ⟨hsame, hsame'⟩ := pass_idle gdb (i := ⟨[], snapshot, logged.world⟩)
            hfault hidle'
          refine restoreAndFuzz_kept hgdb rfl ?_ ?_
          · rw [hsame']
            exact hinvocations
          · rw [hsame]
            exact fun _ => hat hfault
  · exact htop.kept

/-! ### An iteration that does not -/

/-- No invocation is forgotten by `RestoreAndFuzz`. -/
theorem restoreAndFuzz_invocations (snapshot : GDBSnapshot)
    (st : FuzzState (InMemoryWorld L G) GDBSnapshot L) :
    (st.fuzzLocation.foldl (invokeFuzzLocation (InMemoryWorld.environment gdb) .end_)
        ⟨[], snapshot, st.world⟩).world.invocations <+:
      (restoreAndFuzz (InMemoryWorld.environment gdb) snapshot st).world.invocations := by
  generalize hend : st.fuzzLocation.foldl (invokeFuzzLocation (InMemoryWorld.environment gdb) .end_)
    ⟨[], snapshot, st.world⟩ = i
  generalize hlocations : i.fuzzLocationsToRemove.foldl List.erase st.fuzzLocation = locations
  obtain ⟨hkeeps, -⟩ := restore_world gdb i.snapshot i.world
  obtain ⟨-, -, hsame⟩ := nextFuzzRun_world gdb locations
    ((InMemoryWorld.environment gdb).restore i.snapshot i.world)
  have hpass := pass_invocations gdb .start locations ⟨[], i.snapshot,
    locations.foldl (fun w l => (InMemoryWorld.environment gdb).nextFuzzRun l w)
      ((InMemoryWorld.environment gdb).restore i.snapshot i.world)⟩
  dsimp only at hpass
  rw [hsame, hkeeps] at hpass
  subst hlocations hend
  exact hpass

theorem reachSnapshot_invocations (hgdb : gdb.SetsBreakpoints) (bps : Breakpoints)
    (st : FuzzState (InMemoryWorld L G) GDBSnapshot L) :
    (reachSnapshot (InMemoryWorld.environment gdb) bps st).world.invocations =
      st.world.invocations := by
  unfold reachSnapshot
  split
  · split
    · exact (createSnapshot_world hgdb st.world).1
    · rfl
  · rfl

theorem loopBody_invocations (hgdb : gdb.SetsBreakpoints) {bps : Breakpoints}
    {st st' : FuzzState (InMemoryWorld L G) GDBSnapshot L}
    (hbody : loopBody (InMemoryWorld.environment gdb) bps st = .ok st') :
    st.world.invocations <+: st'.world.invocations := by
  rw [← reachSnapshot_invocations hgdb bps st]
  rcases loopBody_cases hbody with ⟨stop, snapshot, -, -, -, -, rfl⟩ | ⟨rfl, -⟩
  · refine List.IsPrefix.trans ?_ (restoreAndFuzz_invocations snapshot _)
    refine List.IsPrefix.trans ?_ (pass_invocations gdb .end_ _ _)
    split <;> exact List.prefix_refl _
  · exact List.prefix_refl _

theorem debugContinue_world (gdb : Gdb) (stop : DebuggerStop)
    (st : FuzzState (InMemoryWorld L G) GDBSnapshot L) :
    (debugContinue (InMemoryWorld.environment gdb) stop st).world.invocations =
        st.world.invocations ∧
      (debugContinue (InMemoryWorld.environment gdb) stop st).world.fault = st.world.fault ∧
      (st.world.fault = none →
        (debugContinue (InMemoryWorld.environment gdb) stop st).world.connector.lastDebuggerStop =
          some stop.address) := by
  unfold debugContinue InMemoryWorld.environment
  dsimp only
  cases hfault : st.world.fault with
  | some f =>
      rw [Option.isSome_some, if_pos rfl]
      refine ⟨rfl, hfault, fun hnone => ?_⟩
      cases hnone
  | none =>
      rw [Option.isSome_none, if_neg Bool.false_ne_true]
      exact ⟨rfl, rfl, fun _ => rfl⟩

/-- The rest of the loop keeps the invocations. -/
theorem fuzzLoop_invocations (hgdb : gdb.SetsBreakpoints) {bps : Breakpoints}
    {stops later : List DebuggerStop} {st st' : FuzzState (InMemoryWorld L G) GDBSnapshot L}
    (hloop : fuzzLoop (InMemoryWorld.environment gdb) bps stops st = .ok (st', later)) :
    st.world.invocations <+: st'.world.invocations := by
  induction stops generalizing st later with
  | nil =>
      unfold fuzzLoop at hloop
      split at hloop
      · cases hloop
        exact List.prefix_refl _
      · obtain ⟨next, hbody, hret⟩ := bind_ok.mp hloop
        cases hret
        exact loopBody_invocations hgdb hbody
  | cons stop rest ih =>
      unfold fuzzLoop at hloop
      split at hloop
      · cases hloop
        exact List.prefix_refl _
      · obtain ⟨next, hbody, hrest⟩ := bind_ok.mp hloop
        obtain ⟨⟨st'', later'⟩, hnext, hret⟩ := bind_ok.mp hrest
        cases hret
        refine (loopBody_invocations hgdb hbody).trans ?_
        rw [← (debugContinue_world gdb stop next).1]
        exact ih hnext

/-- A location runs at the end of a run that ends elsewhere: its technique is invoked away
from the snapshot. -/
theorem loopBody_away {bps : Breakpoints} {st st' : FuzzState (InMemoryWorld L G) GDBSnapshot L}
    (h : SnapshotTop bps st) (hmeets : ¬MeetsSnapshot bps st)
    (hbody : loopBody (InMemoryWorld.environment gdb) bps st = .ok st') :
    ∃ t ∈ st'.world.invocations, ¬t.AtSnapshot := by
  unfold MeetsSnapshot at hmeets
  push Not at hmeets
  obtain ⟨stop, hfault, hlast, hany, hends, haway, l, hl, hruns⟩ := hmeets
  -- the stop is elsewhere, so it is not the one that makes the snapshot
  have hold : st.snapshot.isSome = true := by
    rw [Bool.or_eq_true] at hany
    refine hany.resolve_right ?_
    intro hfirst
    rw [isSnapshotStop, Bool.and_eq_true, decide_eq_true_eq] at hfirst
    exact haway hfirst.1
  obtain ⟨snapshot, hsnapshot⟩ := Option.isSome_iff_exists.mp hold
  have hsame : reachSnapshot (InMemoryWorld.environment gdb) bps st = st := by
    unfold reachSnapshot
    rw [hsnapshot]
  rw [loopBody_of_snapshot hsame hsnapshot hlast, if_pos hends, Except.ok.injEq] at hbody
  rw [← hbody]
  have htarget : st.world.connector.lastDebuggerStop = some stop.address := by
    rw [h.target hfault, hlast]
    rfl
  have hat := h.kept.snapshot hfault snapshot hsnapshot
  have hpass := pass_away gdb (i := ⟨[], snapshot, st.world⟩) haway hfault htarget hat
    ⟨l, hl, by simpa using hruns⟩
  obtain ⟨t, ht, hbad⟩ := hpass
  refine ⟨t, ?_, hbad⟩
  refine (restoreAndFuzz_invocations snapshot _).subset ?_
  split <;> exact ht

/-! ## Sessions -/

/-- The loop, from an iteration on. -/
theorem fuzzLoop_kept_iff (hgdb : gdb.SetsBreakpoints) {bps : Breakpoints}
    {stops later : List DebuggerStop} {st st' : FuzzState (InMemoryWorld L G) GDBSnapshot L}
    (h : SnapshotTop bps st)
    (hloop : fuzzLoop (InMemoryWorld.environment gdb) bps stops st = .ok (st', later)) :
    SnapshotKept bps st' ↔
      EachIteration (InMemoryWorld.environment gdb) bps (MeetsSnapshot bps) stops st := by
  induction stops generalizing st later with
  | nil =>
      unfold fuzzLoop at hloop
      split at hloop
      · rename_i hempty
        cases hloop
        exact iff_of_true h.kept fun hne => absurd hempty hne
      · rename_i hne
        obtain ⟨next, hbody, hret⟩ := bind_ok.mp hloop
        cases hret
        by_cases hmeets : MeetsSnapshot bps st
        · exact iff_of_true (loopBody_kept hgdb h hmeets hbody) fun _ => hmeets
        · obtain ⟨t, ht, hbad⟩ := loopBody_away h hmeets hbody
          refine iff_of_false ?_ fun heach => hmeets (heach hne)
          exact fun hkept => hbad (hkept.invocations t ht)
  | cons stop rest ih =>
      unfold fuzzLoop at hloop
      split at hloop
      · rename_i hempty
        cases hloop
        exact iff_of_true h.kept fun hne => absurd hempty hne
      · rename_i hne
        obtain ⟨next, hbody, hrest⟩ := bind_ok.mp hloop
        obtain ⟨⟨st'', later'⟩, hnext, hret⟩ := bind_ok.mp hrest
        cases hret
        obtain ⟨hsame, hfault, htarget⟩ := debugContinue_world gdb stop next
        by_cases hmeets : MeetsSnapshot bps st
        · have hkept := loopBody_kept hgdb h hmeets hbody
          have htop : SnapshotTop bps (debugContinue (InMemoryWorld.environment gdb) stop next) := by
            refine ⟨⟨?_, ?_⟩, ?_⟩
            · exact fun t ht => hkept.invocations t (hsame ▸ ht)
            · exact fun hnone => hkept.snapshot (hfault ▸ hnone)
            · exact fun hnone => htarget (hfault ▸ hnone)
          rw [ih htop hnext]
          constructor
          · intro heach _
            refine ⟨hmeets, fun next' hbody' => ?_⟩
            cases hbody.symm.trans hbody'
            exact heach
          · intro heach
            exact (heach hne).2 next hbody
        · obtain ⟨t, ht, hbad⟩ := loopBody_away h hmeets hbody
          refine iff_of_false ?_ fun heach => hmeets (heach hne).1
          intro hkept
          have hlater := fuzzLoop_invocations hgdb hnext
          rw [hsame] at hlater
          exact hbad (hkept.invocations t (hlater.subset ht))

/-- In a session with in-memory locations every technique is invoked with the target at the
snapshot, and the snapshot stays at its breakpoint, if and only if in each iteration that
restores the snapshot the target is at this address or no location runs at the end. -/
theorem snapshot_kept_iff (hgdb : gdb.SetsBreakpoints) {bps : Breakpoints}
    {stops examined : List DebuggerStop} {logDestination : String} {fuzzLocation : List L}
    {lastDebuggerStop : Option DebuggerStop} {fs : FileSystem}
    {locations : L → InMemoryFuzzLocation G} {reverseStops : List ReverseStop}
    {st₀ st : FuzzState (InMemoryWorld L G) GDBSnapshot L}
    (hinit : st₀ = initialState logDestination fuzzLocation lastDebuggerStop fs
      ⟨locations, ⟨lastDebuggerStop.map DebuggerStop.address, reverseStops, 0, 0⟩, none, []⟩)
    (hfuzz : fuzz (InMemoryWorld.environment gdb) bps stops st₀ = .ok (st, examined)) :
    SnapshotKept bps st ↔ EachIteration (InMemoryWorld.environment gdb) bps (MeetsSnapshot bps)
      stops st₀.incrementLoggerPrefix := by
  have htop : SnapshotTop bps st₀.incrementLoggerPrefix := by
    rw [hinit]
    refine ⟨⟨?_, ?_⟩, fun _ => rfl⟩
    · intro t ht
      cases ht
    · intro _ s hs
      cases hs
  exact fuzzLoop_kept_iff hgdb htop hfuzz

/-- gdb answers every request. -/
def willingGdb : Gdb := ⟨fun _ => true, fun _ => none⟩

/-- A single-value location that is triggered at the start or at the end of every run. -/
def triggeredAt (trigger : TriggerEnum) : InMemoryFuzzLocation Unit :=
  ⟨⟨none, some (), some [⟨trigger, false, 0, none, 0⟩], false⟩, .singleValue⟩

/-- gdb stops on the way back at a breakpoint at `a`. -/
def backAt (a : UInt64) : ReverseStop := ⟨a, some a, fun _ h => Option.some.inj h⟩

/-- The session with one such location, in which run 1 ends at the restore breakpoint. -/
def oneRun (trigger : TriggerEnum) : FuzzState (InMemoryWorld Unit Unit) GDBSnapshot Unit :=
  initialState "log" [()] (some snapshotStop) (fun _ => none)
    ⟨fun _ => triggeredAt trigger, ⟨some 0x1000, [backAt 0x2000, backAt 0x1000], 0, 0⟩, none, []⟩

/-- Triggered at the end, its technique is invoked at the restore breakpoint, and moves the
snapshot there. -/
theorem end_trigger_moves_snapshot :
    ∃ st, fuzz (InMemoryWorld.environment willingGdb) ⟨0x1000, 0x2000⟩ [restoreStop]
        (oneRun .end_) = .ok (st, [snapshotStop, restoreStop]) ∧
      st.world.invocations = [⟨some 0x2000, some 0x1000⟩] ∧ st.snapshot = some ⟨some 0x2000⟩ ∧
      st.world.fault.isNone ∧ ¬SnapshotKept ⟨0x1000, 0x2000⟩ st := by
  refine ⟨_, rfl, rfl, rfl, rfl, ?_⟩
  intro hkept
  have hmoved := hkept.snapshot rfl _ rfl
  cases hmoved

/-- Triggered at the start, it is invoked at the snapshot. -/
theorem snapshot_kept_start :
    ∃ st, fuzz (InMemoryWorld.environment willingGdb) ⟨0x1000, 0x2000⟩ [restoreStop]
        (oneRun .start) = .ok (st, [snapshotStop, restoreStop]) ∧
      st.world.invocations = [⟨some 0x1000, some 0x1000⟩] ∧
      SnapshotKept ⟨0x1000, 0x2000⟩ st := by
  obtain ⟨st, hfuzz, hinvocations⟩ : ∃ st, fuzz (InMemoryWorld.environment willingGdb)
      ⟨0x1000, 0x2000⟩ [restoreStop] (oneRun .start) = .ok (st, [snapshotStop, restoreStop]) ∧
      st.world.invocations = [⟨some 0x1000, some 0x1000⟩] := ⟨_, rfl, rfl⟩
  refine ⟨st, hfuzz, hinvocations, (snapshot_kept_iff (fun _ => rfl) rfl hfuzz).mpr ?_⟩
  intro _
  have hidle : ∀ top : FuzzState (InMemoryWorld Unit Unit) GDBSnapshot Unit,
      (∀ l, top.world.runs .end_ l = false) → MeetsSnapshot ⟨0x1000, 0x2000⟩ top :=
    fun _ h _ _ _ _ _ => Or.inr fun l _ => h l
  refine ⟨hidle _ fun _ => rfl, ?_⟩
  intro st' hbody
  cases hbody
  intro _
  exact hidle _ fun _ => rfl

end InMemoryFuzzing.Fuzz

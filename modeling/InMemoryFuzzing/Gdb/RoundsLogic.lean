import InMemoryFuzzing.Gdb.FuzzRounds
import InMemoryFuzzing.Gdb.UndoRuns

/-!
# What holds in every round

`Rounds` is kept by every step of the controller and of gdb: the program is at the address of
the snapshot whenever a technique runs, and the memory there is the first one with what the
commands of the techniques have made of it (`Written`).
-/

namespace InMemoryFuzzing.Gdb

open Base Platform DotNet

variable {L M : Type} {chars : CharData} {gdb : Debugger M} {effect : Effect M}

/-- The commands have made the second memory of the first, each of what the one before has left,
with the program at the address. -/
inductive Written (effect : Effect M) (a : UInt64) (m₀ : M) : List (Change M) → M → Prop
  | nothing : Written effect a m₀ [] m₀
  | change {changes : List (Change M)} {m m' : M} {command : TargetCommand} {answer : Answer}
      (h : Written effect a m₀ changes m) (heffect : effect command m answer m') :
      Written effect a m₀ (changes ++ [⟨command, answer, some ⟨a, m⟩, some ⟨a, m'⟩⟩]) m'

/-- The calls of the connector that a phase waits for. -/
def FuzzPhase.Allows : FuzzPhase L → Call → Prop
  | .checking, .stop restoring => restoring = false
  | .checking, .pc restoring => restoring = false
  | .comparing, .createSnapshot _ => True
  | .triggering, .createSnapshot _ => True
  | .triggering, .stop restoring => restoring = true
  | .triggering, .pc restoring => restoring = true
  | .allocating _ _, .allocateMemory => True
  | .linking _ _, .writeMemory => True
  | .recreating, .writeMemory => True
  | _, _ => False

/-- A technique runs, from `Destroy` to `CreateSnapshot`. -/
def FuzzPhase.technique : FuzzPhase L → Bool
  | .checking => false
  | .comparing => false
  | .triggering => false
  | _ => true

namespace FuzzRun

variable (description : FuzzDescription L) (m : M) (s : FuzzRun L M gdb)

/-- What the controller finds when it goes on. -/
def Ready : Prop :=
  (s.phase = .checking → s.session.snapshot = none → s.reached description = true) ∧
  (s.phase = .comparing → s.session.snapshot ≠ none) ∧
  (s.phase = .triggering →
    s.session.snapshot ≠ none ∧ s.session.At description.snapshotBreakpoint m) ∧
  (s.phase.technique = true → s.session.snapshot = none)

/-- A technique runs, or is about to. -/
def AtTechnique : Prop :=
  s.session.fault = none ∧
    (s.phase.technique = true ∨ s.phase = .triggering ∧ s.session.call = none)

end FuzzRun

namespace FuzzPhase.Allows

variable {phase : FuzzPhase L} {call : Call}

/-- While a technique runs only the memory is waited for. -/
theorem memory (h : phase.Allows call) (htechnique : phase.technique = true) :
    call = .writeMemory ∨ call = .allocateMemory := by
  cases phase <;> cases htechnique <;> cases call <;> first
    | exact .inl rfl
    | exact .inr rfl
    | cases h

theorem technique (h : phase.Allows call) (hmemory : call = .writeMemory ∨ call = .allocateMemory) :
    phase.technique = true := by
  rcases hmemory with rfl | rfl <;> cases phase <;> first | rfl | cases h

theorem not_technique (h : phase.Allows call) (hmemory : call ≠ .writeMemory)
    (hallocate : call ≠ .allocateMemory) : phase.technique = false :=
  Bool.eq_false_iff.mpr fun htechnique => (h.memory htechnique).elim hmemory hallocate

/-- A phase that waits for a stop also waits for its address. -/
theorem stop_iff_pc {restoring : Bool} :
    phase.Allows (.stop restoring) ↔ phase.Allows (.pc restoring) := by
  cases phase <;> exact Iff.rfl

/-- While the locations are triggered the program only moves to be restored. -/
theorem restoring {restoring : Bool} (h : phase.Allows (.stop restoring))
    (hphase : phase = .triggering) : restoring = true := by
  subst hphase
  exact h

end FuzzPhase.Allows

structure Rounds (effect : Effect M) (description : FuzzDescription L) (m₀ m : M)
    (s : FuzzRun L M gdb) : Prop where
  stays : Stays s.session
  written : Written effect description.snapshotBreakpoint m₀ s.changes m
  undone : Undone description.snapshotBreakpoint m s.session
  allows : ∀ call, s.session.call = some call → s.phase.Allows call
  ready : s.session.call = none → s.session.fault = none → s.Ready description m

namespace Rounds

variable {description : FuzzDescription L} {m₀ m m' : M} {s s' : FuzzRun L M gdb}

/-- The controller finds the same as before. -/
theorem ready_of_same (h : s.Ready description m) (hphase : s'.phase = s.phase)
    (hsnapshot : s'.session.snapshot = s.session.snapshot)
    (hstop : s'.session.lastDebuggerStop = s.session.lastDebuggerStop)
    (hat : s.session.At description.snapshotBreakpoint m →
      s'.session.At description.snapshotBreakpoint m') : s'.Ready description m' := by
  obtain ⟨hchecking, hcomparing, htriggering, htechnique⟩ := h
  unfold FuzzRun.Ready
  rw [hphase, FuzzRun.reached, hsnapshot, hstop]
  exact ⟨hchecking, hcomparing, fun hwhere => (htriggering hwhere).imp_right hat, htechnique⟩

/-- The program has moved, and the snapshot is there. -/
theorem ready_of_moved (hsome : s'.session.snapshot ≠ none)
    (htechnique : s'.phase.technique = false)
    (hat : s'.phase = .triggering → s'.session.At description.snapshotBreakpoint m) :
    s'.Ready description m :=
  ⟨fun _ hnone => absurd hnone hsome, fun _ => hsome, fun hwhere => ⟨hsome, hat hwhere⟩,
    fun hruns => by rw [htechnique] at hruns; cases hruns⟩

/-- A technique goes on. -/
theorem ready_of_technique (htechnique : s'.phase.technique = true)
    (hnone : s'.session.snapshot = none) : s'.Ready description m := by
  refine ⟨fun hwhere => ?_, fun hwhere => ?_, fun hwhere => ?_, fun _ => hnone⟩ <;>
    rw [hwhere] at htechnique <;> cases htechnique

/-- The program moves, and the controller waits for it. -/
theorem allows_stop (h : Rounds effect description m₀ m s) {restoring : Bool}
    (hcall : s.session.call = some (.stop restoring) ∨ s.session.call = some (.pc restoring)) :
    s.phase.Allows (.stop restoring) := by
  rcases hcall with hcall | hcall
  · exact h.allows _ hcall
  · exact FuzzPhase.Allows.stop_iff_pc.mpr (h.allows _ hcall)

/-- What the controller finds when gdb has executed a command. -/
theorem ready_of_outcome (h : Rounds effect description m₀ m s) (hphase : s'.phase = s.phase)
    {command : TargetCommand} {answer : Answer} {rest : List TargetCommand}
    (houtcome : Outcome description.snapshotBreakpoint m m' command answer rest s.session
      s'.session)
    (hidle : s'.session.call = none) (hfault : s'.session.fault = none) :
    s'.Ready description m' := by
  cases houtcome with
  | waits hcall hsnapshot hstop hnofault hmemory hcommands hvalue hat =>
      have hready := h.ready (hcall.symm.trans hidle) (hnofault.symm.trans hfault)
      exact ready_of_same hready hphase hsnapshot hstop hat
  | @moves restoring hcall hcall' hsnapshot harrived =>
      have hsome : s'.session.snapshot ≠ none := by
        rw [hsnapshot]
        exact h.undone.snapshot_of_moving hcall
      have hallows := h.allows_stop hcall
      refine ready_of_moved hsome ?_ fun hwhere => harrived hidle hfault ?_
      · rw [hphase]
        exact hallows.not_technique (by simp) (by simp)
      · rw [hphase] at hwhere
        exact hallows.restoring hwhere
  | made hcommand hrest hcall hcall' hsnapshot hat =>
      refine ready_of_moved hsnapshot ?_ fun _ => hat
      rw [hphase]
      exact (h.allows _ hcall).not_technique (by simp) (by simp)
  | written hcommand hrest hcall hcall' hsnapshot hcommands =>
      refine ready_of_technique ?_ ?_
      · rw [hphase]
        exact (h.allows _ hcall).technique (.inl rfl)
      · rw [hsnapshot]
        exact h.undone.snapshot_of_memory (.inl hcall)
  | allocated hcommand hrest hanswer hcall hcall' hsnapshot hcommands hmemory =>
      refine ready_of_technique ?_ ?_
      · rw [hphase]
        exact (h.allows _ hcall).technique (.inr rfl)
      · rw [hsnapshot]
        exact h.undone.snapshot_of_memory (.inr hcall)

theorem allows_of_outcome (h : Rounds effect description m₀ m s) (hphase : s'.phase = s.phase)
    {command : TargetCommand} {answer : Answer} {rest : List TargetCommand}
    (houtcome : Outcome description.snapshotBreakpoint m m' command answer rest s.session
      s'.session) :
    ∀ call, s'.session.call = some call → s'.phase.Allows call := by
  intro call hcall'
  rw [hphase]
  cases houtcome with
  | waits hsame => exact h.allows call (hsame.symm.trans hcall')
  | @moves restoring hcall hcalls =>
      have hallows := h.allows_stop hcall
      rcases hcalls with hnone | hstop | hpc
      · rw [hnone] at hcall'
        cases hcall'
      · rw [hstop] at hcall'
        cases hcall'
        exact hallows
      · rw [hpc] at hcall'
        cases hcall'
        exact FuzzPhase.Allows.stop_iff_pc.mp hallows
  | made hcommand hrest hcall hnone => rw [hnone] at hcall'; cases hcall'
  | written hcommand hrest hcall hnone => rw [hnone] at hcall'; cases hcall'
  | allocated hcommand hrest hanswer hcall hnone => rw [hnone] at hcall'; cases hcall'

theorem changed_eq {choice : gdb.Choice} {command : TargetCommand} {rest : List TargetCommand}
    {answer : Answer} {target : gdb.State} (hcommands : s.session.commands = command :: rest)
    (hexecute : gdb.execute s.session.target choice command = some (answer, target)) :
    s.changed choice = if command.changes then
      s.changes ++ [⟨command, answer, (gdb.view s.session.target).now, (gdb.view target).now⟩]
      else s.changes := by
  unfold FuzzRun.changed
  rw [hcommands]
  dsimp only
  rw [hexecute]
  rfl

/-- What gdb has executed is written down. -/
theorem written_of_became (h : Rounds effect description m₀ m s) {choice : gdb.Choice}
    {command : TargetCommand} {rest : List TargetCommand} {answer : Answer} {target : gdb.State}
    (hcommands : s.session.commands = command :: rest)
    (hexecute : gdb.execute s.session.target choice command = some (answer, target))
    (hbecame : Became effect description.snapshotBreakpoint command answer
      (gdb.view s.session.target) (gdb.view target) m m') :
    Written effect description.snapshotBreakpoint m₀ (s.changed choice) m' := by
  rw [changed_eq hcommands hexecute]
  rcases hbecame with ⟨hchanges, rfl⟩ | ⟨hchanges, heffect, hbefore, hafter⟩
  · rw [hchanges]
    exact h.written
  · rw [hchanges, if_pos rfl, hbefore, hafter]
    exact h.written.change heffect

/-- gdb executes a command. -/
theorem execute (hchars : chars.Ascii) (hgdb : gdb.Documented chars effect)
    (h : Rounds effect description m₀ m s) {choice : gdb.Choice}
    (haway : s.session.StaysAway description.snapshotBreakpoint choice)
    {session : DebugSession M gdb} (hstep : s.session.step chars (.execute choice) = some session) :
    ∃ command rest answer target m', s.session.commands = command :: rest ∧
      s.changed choice = (if command.changes then
        s.changes ++ [⟨command, answer, (gdb.view s.session.target).now, (gdb.view target).now⟩]
        else s.changes) ∧
      Became effect description.snapshotBreakpoint command answer (gdb.view s.session.target)
        (gdb.view target) m m' ∧
      Outcome description.snapshotBreakpoint m m' command answer rest s.session session ∧
      Rounds effect description m₀ m' { s with session, changes := s.changed choice } := by
  have hexecuted := h.stays.executed hchars hgdb hstep
  obtain ⟨command, rest, answer, target, m', hcommands, hexecute, -, hbecame, hundone, houtcome⟩ :=
    h.undone.execute hgdb h.stays haway hexecuted
  have hafter : Outcome description.snapshotBreakpoint m m' command answer rest s.session
      { s with session, changes := s.changed choice }.session := houtcome
  exact ⟨command, rest, answer, target, m', hcommands, changed_eq hcommands hexecute, hbecame,
    houtcome, h.stays.step hchars hgdb hstep, h.written_of_became hcommands hexecute hbecame,
    hundone, h.allows_of_outcome rfl hafter, h.ready_of_outcome rfl hafter⟩

/-- Where a technique runs. -/
theorem now (h : Rounds effect description m₀ m s) (hat : s.AtTechnique) :
    (gdb.view s.session.target).now = some ⟨description.snapshotBreakpoint, m⟩ := by
  obtain ⟨hfault, htechnique | ⟨hphase, hidle⟩⟩ := hat
  · refine (h.undone.without ?_).2.now
    cases hcall : s.session.call with
    | none => exact (h.ready hcall hfault).2.2.2 htechnique
    | some call =>
        rcases (h.allows call hcall).memory htechnique with rfl | rfl
        · exact h.undone.snapshot_of_memory (.inl hcall)
        · exact h.undone.snapshot_of_memory (.inr hcall)
  · exact ((h.ready hidle hfault).2.2.1 hphase).2.now

end Rounds

/-! ## The controller -/

/-- A call of the connector. -/
theorem FuzzRun.call_eq_some {s s' : FuzzRun L M gdb} {act : DebugAct M gdb} {phase : FuzzPhase L}
    (hact : ∀ choice, act ≠ .execute choice) (hcall : s.call chars act phase = some s') :
    ∃ session, s.session.begin act = some session ∧ s' = { s with session, phase } := by
  obtain ⟨session, hstep, rfl⟩ := Option.map_eq_some_iff.mp hcall
  refine ⟨session, ?_, rfl⟩
  cases act with
  | execute choice => exact absurd rfl (hact choice)
  | _ => exact (Option.ite_none_right_eq_some.mp hstep).2

section

variable [DecidableEq L]

/-- All that the controller can do when it goes on. -/
inductive Controlled (description : FuzzDescription L) (s : FuzzRun L M gdb) :
    FuzzRun L M gdb → Prop
  | raises (e : NetException) : Controlled description s (s.raise e)
  | compares (hphase : s.phase = .checking) (hreached : s.reached description = false) :
      Controlled description s { s with phase := .comparing }
  | creates {phase : FuzzPhase L} {session : DebugSession M gdb}
      (hphase : s.phase = .checking ∧ s.reached description = true ∧ phase = .comparing ∨
        s.phase = .recreating ∧ phase = .triggering)
      (hbegin : s.session.begin .createSnapshot = some session) :
      Controlled description s { s with session, phase }
  | continues {session : DebugSession M gdb} (hphase : s.phase = .comparing ∨ s.phase = .triggering)
      (hbegin : s.session.begin .debugContinue = some session) :
      Controlled description s { s with session, phase := .checking }
  | restores {session : DebugSession M gdb} (hphase : s.phase = .comparing)
      (hbegin : s.session.begin .restore = some session) :
      Controlled description s { s with session, phase := .triggering }
  | destroys {phase : FuzzPhase L} {session : DebugSession M gdb} (hphase : s.phase = .triggering)
      (hnext : (∃ data target, phase = .writing data target) ∨
        ∃ fuzzLocation data, phase = .freeing fuzzLocation data)
      (hbegin : s.session.begin .destroySnapshot = some session) :
      Controlled description s { s with session, phase }
  | writes {data : List UInt8} {address : UInt64} {session : DebugSession M gdb}
      (hphase : (∃ data target, s.phase = .writing data target) ∨
        ∃ fuzzLocation memory, s.phase = .linking fuzzLocation memory)
      (hbegin : s.session.begin (.writeMemory data address) = some session) :
      Controlled description s { s with session, phase := .recreating }
  | frees {fuzzLocation : L} {data : List UInt8} {address : UInt64} {session : DebugSession M gdb}
      (hphase : s.phase = .freeing fuzzLocation data)
      (hmemory : s.currentAllocatedMemory fuzzLocation = some address)
      (hbegin : s.session.begin (.freeMemory address) = some session) :
      Controlled description s
        ({ s with session, phase := .freeing fuzzLocation data }.setMemory fuzzLocation none)
  | allocates {fuzzLocation : L} {data : List UInt8} {session : DebugSession M gdb}
      (hphase : s.phase = .freeing fuzzLocation data)
      (hmemory : s.currentAllocatedMemory fuzzLocation = none)
      (hbegin : s.session.begin (.allocateMemory (UInt64.ofNat data.length)) = some session) :
      Controlled description s { s with session, phase := .allocating fuzzLocation data }
  | keeps {fuzzLocation : L} {data : List UInt8} {address : UInt64} {session : DebugSession M gdb}
      (hphase : s.phase = .allocating fuzzLocation data)
      (hmemory : s.session.allocatedMemory = some address)
      (hbegin : s.session.begin (.writeMemory data address) = some session) :
      Controlled description s
        ({ s with session, phase := .linking fuzzLocation address }.setMemory fuzzLocation
          (some address))

namespace FuzzRun

variable {description : FuzzDescription L} {s s' : FuzzRun L M gdb}

theorem next_controlled (hnext : s.next chars description = some s') :
    Controlled description s s' := by
  unfold FuzzRun.next at hnext
  cases hphase : s.phase with
  | checking =>
      rw [hphase] at hnext
      dsimp only at hnext
      split at hnext
      · next hreached =>
          obtain ⟨session, hbegin, rfl⟩ := call_eq_some (by simp) hnext
          exact .creates (.inl ⟨hphase, hreached, rfl⟩) hbegin
      · next hreached =>
          cases hnext
          exact .compares hphase (Bool.eq_false_iff.mpr hreached)
  | comparing =>
      rw [hphase] at hnext
      dsimp only at hnext
      split at hnext
      · obtain ⟨session, hbegin, rfl⟩ := call_eq_some (by simp) hnext
        exact .continues (.inl hphase) hbegin
      · cases hnext
        exact .raises .nullReference
      · split at hnext
        · obtain ⟨session, hbegin, rfl⟩ := call_eq_some (by simp) hnext
          exact .restores hphase hbegin
        · obtain ⟨session, hbegin, rfl⟩ := call_eq_some (by simp) hnext
          exact .continues (.inl hphase) hbegin
  | triggering =>
      rw [hphase] at hnext
      cases hnext
  | writing data target =>
      rw [hphase] at hnext
      obtain ⟨session, hbegin, rfl⟩ := call_eq_some (by simp) hnext
      exact .writes (.inl ⟨data, target, hphase⟩) hbegin
  | freeing fuzzLocation data =>
      rw [hphase] at hnext
      dsimp only at hnext
      split at hnext
      · next hmemory =>
          obtain ⟨session, hbegin, rfl⟩ := call_eq_some (by simp) hnext
          exact .allocates hphase hmemory hbegin
      · next address hmemory =>
          obtain ⟨s₁, hcall, rfl⟩ := Option.map_eq_some_iff.mp hnext
          obtain ⟨session, hbegin, rfl⟩ := call_eq_some (by simp) hcall
          exact .frees hphase hmemory hbegin
  | allocating fuzzLocation data =>
      rw [hphase] at hnext
      dsimp only at hnext
      split at hnext
      · cases hnext
        exact .raises .nullReference
      · next address hmemory =>
          obtain ⟨s₁, hcall, rfl⟩ := Option.map_eq_some_iff.mp hnext
          obtain ⟨session, hbegin, rfl⟩ := call_eq_some (by simp) hcall
          exact .keeps hphase hmemory hbegin
  | linking fuzzLocation address =>
      rw [hphase] at hnext
      cases hnext
  | recreating =>
      rw [hphase] at hnext
      obtain ⟨session, hbegin, rfl⟩ := call_eq_some (by simp) hnext
      exact .creates (.inr ⟨hphase, rfl⟩) hbegin

/-- A step is one of gdb, or one of the controller. -/
theorem step_cases {act : FuzzAct L M gdb} (hstep : s.step chars description act = some s') :
    (∃ choice session, act = .execute choice ∧
      s.session.step chars (.execute choice) = some session ∧
      s' = { s with session, changes := s.changed choice }) ∨
    s.session.call = none ∧ s.session.fault = none ∧ s.fault = none ∧
      Controlled description s s' := by
  cases act with
  | execute choice =>
      obtain ⟨session, hsession, rfl⟩ := Option.map_eq_some_iff.mp hstep
      exact .inl ⟨choice, session, rfl, hsession, rfl⟩
  | next =>
      obtain ⟨⟨hidle, hnofault, hfault⟩, hnext⟩ := Option.ite_none_right_eq_some.mp hstep
      exact .inr ⟨hidle, hnofault, hfault, next_controlled hnext⟩
  | run fuzzLocation data target =>
      obtain ⟨⟨hidle, hnofault, hfault⟩, hrun⟩ := Option.ite_none_right_eq_some.mp hstep
      refine .inr ⟨hidle, hnofault, hfault, ?_⟩
      cases hphase : s.phase with
      | triggering =>
          rw [hphase] at hrun
          dsimp only at hrun
          unfold FuzzRun.run at hrun
          split at hrun
          · cases hrun
            exact .raises _
          · obtain ⟨session, hbegin, rfl⟩ := call_eq_some (by simp) hrun
            exact .destroys hphase (.inl ⟨_, _, rfl⟩) hbegin
          · obtain ⟨session, hbegin, rfl⟩ := call_eq_some (by simp) hrun
            exact .destroys hphase (.inr ⟨_, _, rfl⟩) hbegin
      | _ =>
          rw [hphase] at hrun
          cases hrun
  | link target =>
      obtain ⟨⟨hidle, hnofault, hfault⟩, hlink⟩ := Option.ite_none_right_eq_some.mp hstep
      refine .inr ⟨hidle, hnofault, hfault, ?_⟩
      cases hphase : s.phase with
      | linking fuzzLocation address =>
          rw [hphase] at hlink
          dsimp only at hlink
          unfold FuzzRun.link at hlink
          split at hlink
          · cases hlink
            exact .raises _
          · obtain ⟨session, hbegin, rfl⟩ := call_eq_some (by simp) hlink
            exact .writes (.inr ⟨fuzzLocation, address, hphase⟩) hbegin
      | _ =>
          rw [hphase] at hlink
          cases hlink
  | debugContinue =>
      obtain ⟨⟨hidle, hnofault, hfault⟩, hcontinue⟩ := Option.ite_none_right_eq_some.mp hstep
      refine .inr ⟨hidle, hnofault, hfault, ?_⟩
      cases hphase : s.phase with
      | triggering =>
          rw [hphase] at hcontinue
          obtain ⟨session, hbegin, rfl⟩ := call_eq_some (by simp) hcontinue
          exact .continues (.inr hphase) hbegin
      | _ =>
          rw [hphase] at hcontinue
          cases hcontinue

end FuzzRun

namespace Rounds

variable {description : FuzzDescription L} {m₀ m : M} {s s' : FuzzRun L M gdb}

omit [DecidableEq L] in
/-- A call has begun to wait. -/
theorem of_waiting (h : Rounds effect description m₀ m s) (hstays : Stays s'.session)
    (hchanges : s'.changes = s.changes)
    (hundone : Undone description.snapshotBreakpoint m s'.session) {call : Call}
    (hcall : s'.session.call = some call) (hallows : s'.phase.Allows call) :
    Rounds effect description m₀ m s' where
  stays := hstays
  written := by
    rw [hchanges]
    exact h.written
  undone := hundone
  allows other hother := by
    rw [hcall] at hother
    cases hother
    exact hallows
  ready hidle := by
    rw [hcall] at hidle
    cases hidle

omit [DecidableEq L] in
/-- A call has returned at once. -/
theorem of_idle (h : Rounds effect description m₀ m s) (hstays : Stays s'.session)
    (hchanges : s'.changes = s.changes)
    (hundone : Undone description.snapshotBreakpoint m s'.session) (hcall : s'.session.call = none)
    (hready : s'.session.fault = none → s'.Ready description m) :
    Rounds effect description m₀ m s' where
  stays := hstays
  written := by
    rw [hchanges]
    exact h.written
  undone := hundone
  allows other hother := by
    rw [hcall] at hother
    cases hother
  ready _ := hready

omit [DecidableEq L] in
/-- While a technique runs the memory can be changed. -/
theorem change (h : Rounds effect description m₀ m s) (hidle : s.session.call = none)
    (hnofault : s.session.fault = none) (htechnique : s.phase.technique = true) :
    (∀ {data address session}, s.session.begin (.writeMemory data address) = some session →
      Undone description.snapshotBreakpoint m session ∧ session.call = some .writeMemory) ∧
    (∀ {size session}, s.session.begin (.allocateMemory size) = some session →
      Undone description.snapshotBreakpoint m session ∧ session.call = some .allocateMemory) ∧
    (∀ {address session}, s.session.begin (.freeMemory address) = some session →
      Undone description.snapshotBreakpoint m session ∧ session.call = none ∧
        session.snapshot = none) := by
  have hnone : s.session.snapshot = none := (h.ready hidle hnofault).2.2.2 htechnique
  refine ⟨fun hbegin => ?_, fun hbegin => ?_, fun hbegin => ?_⟩
  · obtain ⟨-, heq⟩ := Option.ite_none_right_eq_some.mp hbegin
    cases heq
    refine ⟨h.undone.change hnone rfl rfl rfl rfl rfl fun call hcall => ?_, rfl⟩
    cases hcall
    exact .inr (.inl ⟨.inl rfl, hnone⟩)
  · obtain ⟨-, heq⟩ := Option.ite_none_right_eq_some.mp hbegin
    cases heq
    refine ⟨h.undone.change hnone rfl rfl rfl rfl rfl fun call hcall => ?_, rfl⟩
    cases hcall
    exact .inr (.inl ⟨.inr rfl, hnone⟩)
  · obtain ⟨-, heq⟩ := Option.ite_none_right_eq_some.mp hbegin
    cases heq
    exact ⟨h.undone.change hnone rfl rfl rfl rfl rfl (Undone.waits_of_idle hidle), hidle, hnone⟩

/-- The controller goes on. -/
theorem controlled (h : Rounds effect description m₀ m s) (ha : description.snapshotBreakpoint ≠ 0)
    (hidle : s.session.call = none) (hnofault : s.session.fault = none)
    (hcontrolled : Controlled description s s') : Rounds effect description m₀ m s' := by
  obtain ⟨hchecking, hcomparing, htriggering, htechnique⟩ := h.ready hidle hnofault
  cases hcontrolled with
  | raises e => exact ⟨h.stays, h.written, h.undone, h.allows, h.ready⟩
  | compares hphase hreached =>
      refine h.of_idle h.stays rfl h.undone hidle fun _ => ready_of_moved (fun hnone => ?_) rfl ?_
      · rw [hchecking hphase hnone] at hreached
        cases hreached
      · intro hwhere
        cases hwhere
  | creates hphase hbegin =>
      have hnone : s.session.snapshot = none := by
        rcases hphase with ⟨-, hreached, -⟩ | ⟨hphase, -⟩
        · exact Option.isNone_iff_eq_none.mp (Bool.and_eq_true_iff.mp hreached).1
        · exact htechnique (by rw [hphase]; rfl)
      obtain ⟨hundone, hcall, -⟩ := h.undone.createSnapshot ha hnone hbegin
      refine h.of_waiting (h.stays.begin hidle hnofault hbegin) rfl hundone hcall ?_
      rcases hphase with ⟨-, -, rfl⟩ | ⟨-, rfl⟩ <;> trivial
  | continues hphase hbegin =>
      have hsome : s.session.snapshot ≠ none :=
        hphase.elim hcomparing fun hwhere => (htriggering hwhere).1
      have hstays := h.stays.begin hidle hnofault hbegin
      cases hbegin
      exact h.of_waiting hstays rfl (h.undone.continue_ hsome false) rfl rfl
  | restores hphase hbegin =>
      have hstays := h.stays.begin hidle hnofault hbegin
      obtain ⟨snapshot, hsnapshot, heq⟩ := Option.map_eq_some_iff.mp hbegin
      cases heq
      exact h.of_waiting hstays rfl (h.undone.continue_ (hcomparing hphase) true) rfl rfl
  | destroys hphase hnext hbegin =>
      obtain ⟨hundone, hcall, hdestroyed⟩ :=
        h.undone.destroy h.stays hidle (htriggering hphase).2 hbegin
      refine h.of_idle (h.stays.begin hidle hnofault hbegin) rfl hundone hcall fun hfault =>
        ready_of_technique ?_ (hdestroyed hfault)
      rcases hnext with ⟨data, target, rfl⟩ | ⟨fuzzLocation, data, rfl⟩ <;> rfl
  | writes hphase hbegin =>
      have hruns : s.phase.technique = true := by
        rcases hphase with ⟨data, target, hphase⟩ | ⟨fuzzLocation, memory, hphase⟩ <;>
          rw [hphase] <;> rfl
      obtain ⟨hundone, hcall⟩ := (h.change hidle hnofault hruns).1 hbegin
      exact h.of_waiting (h.stays.begin hidle hnofault hbegin) rfl hundone hcall trivial
  | frees hphase hmemory hbegin =>
      obtain ⟨hundone, hcall, hnone⟩ :=
        (h.change hidle hnofault (by rw [hphase]; rfl)).2.2 hbegin
      exact h.of_idle (h.stays.begin hidle hnofault hbegin) rfl hundone hcall fun _ =>
        ready_of_technique rfl hnone
  | allocates hphase hmemory hbegin =>
      obtain ⟨hundone, hcall⟩ := (h.change hidle hnofault (by rw [hphase]; rfl)).2.1 hbegin
      exact h.of_waiting (h.stays.begin hidle hnofault hbegin) rfl hundone hcall trivial
  | keeps hphase hmemory hbegin =>
      obtain ⟨hundone, hcall⟩ := (h.change hidle hnofault (by rw [hphase]; rfl)).1 hbegin
      exact h.of_waiting (h.stays.begin hidle hnofault hbegin) rfl hundone hcall trivial

end Rounds

end

end InMemoryFuzzing.Gdb

import InMemoryFuzzing.Gdb.UndoLogic

/-!
# What is undone in a run

What becomes of a command that gdb executes (`Undone.execute`), and of the calls that a round
of fuzzing makes: everything keeps `Undone`, and the memory is only changed by the commands that
change it.
-/

namespace InMemoryFuzzing.Gdb

open Base Platform DotNet

variable {M : Type} {chars : CharData} {gdb : Debugger M} {effect : Effect M}

/-! ## What becomes of it -/

/-- What the fuzzing thread sees of a command that gdb has executed: it waits on, the program has
moved, the snapshot has been made, or the memory is written or allocated. -/
inductive Outcome (a : UInt64) (m m' : M) (command : TargetCommand) (answer : Answer)
    (rest : List TargetCommand) (s s' : DebugSession M gdb) : Prop
  | waits (hcall : s'.call = s.call) (hsnapshot : s'.snapshot = s.snapshot)
      (hstop : s'.lastDebuggerStop = s.lastDebuggerStop) (hfault : s'.fault = s.fault)
      (hmemory : s'.allocatedMemory = s.allocatedMemory) (hcommands : s'.commands = rest)
      (hvalue : ∀ size, command = .malloc size → ∀ value, answer ≠ .value value)
      (hat : s.At a m → s'.At a m')
  | moves {restoring : Bool} (hcall : s.call = some (.stop restoring) ∨ s.call = some (.pc restoring))
      (hcall' : s'.call = none ∨ s'.call = some (.stop restoring) ∨ s'.call = some (.pc restoring))
      (hsnapshot : s'.snapshot = s.snapshot)
      (harrived : s'.call = none → s'.fault = none → restoring = true → s'.At a m')
  | made {place : Place} (hcommand : command = .setBreakpoint place) (hrest : rest = [])
      (hcall : s.call = some (.createSnapshot a)) (hcall' : s'.call = none)
      (hsnapshot : s'.snapshot ≠ none) (hat : s'.At a m')
  | written {data : List UInt8} {address : UInt64} (hcommand : command = .restore data address)
      (hrest : rest = []) (hcall : s.call = some .writeMemory) (hcall' : s'.call = none)
      (hsnapshot : s'.snapshot = s.snapshot) (hcommands : s'.commands = [])
  | allocated {size : UInt64} {value : Option UInt64} (hcommand : command = .malloc size)
      (hrest : rest = []) (hanswer : answer = .value value) (hcall : s.call = some .allocateMemory)
      (hcall' : s'.call = none) (hsnapshot : s'.snapshot = s.snapshot) (hcommands : s'.commands = [])
      (hmemory : s'.allocatedMemory = value.filter fun address => address ≠ 0)

namespace Undone

variable {a : UInt64} {m : M} {s s' : DebugSession M gdb}

/-- `DebugContinue` returns, or `Restore` goes on. -/
theorem continued (h : Undone a m s) (restoring : Bool) {stop : GdbStop}
    (hsome : s.snapshot ≠ none) (hnames : Names s.breakpoints (gdb.view s.target).now stop)
    (haddress : stop.address = (gdb.view s.target).address) :
    Undone a m (s.continued restoring stop) ∧
      ((s.continued restoring stop).call = none ∨
        (s.continued restoring stop).call = some (.stop restoring)) ∧
      (s.continued restoring stop).snapshot = s.snapshot ∧
      ((s.continued restoring stop).call = none → (s.continued restoring stop).fault = none →
        restoring = true → (s.continued restoring stop).At a m) ∧
      (s.continued restoring stop).target = s.target := by
  obtain ⟨full, hright, hcases⟩ := continued_cases s restoring hnames haddress
  have hnever : ∀ s' : DebugSession M gdb, s.snapshot = none →
      s'.lastDebuggerStop = s.lastDebuggerStop := fun s' hnone => absurd hnone hsome
  have hidle : ∀ s' : DebugSession M gdb, s'.call = none → s'.Waits a := by
    intro s' hcall call hwaits
    rw [hcall] at hwaits
    cases hwaits
  rcases hcases with ⟨heq, hsame⟩ | ⟨-, heq, -⟩ | ⟨hrestoring, heq, -⟩ <;> rw [heq]
  · refine ⟨h.of_call rfl rfl rfl (hnever _) (hidle _ rfl), .inl rfl, rfl, fun _ _ htrue => ?_, rfl⟩
    obtain ⟨br, myBreakpoint, hbr, hmine, hat⟩ := hsame htrue
    obtain ⟨-, moment, hnow, hhere⟩ := hright.names.known br hbr
    change (gdb.view s.target).now = some moment at hnow
    have hpc : moment.pc = a := by rw [← hhere, hat, h.breakpoint myBreakpoint hmine]
    have hmoment : moment = ⟨a, m⟩ := h.visits.now moment hnow hpc
    refine ⟨hnow.trans (congrArg some hmoment), full, rfl, ?_⟩
    rw [hright.address]
    show ((gdb.view s.target).now.map Moment.pc).getD 0 = a
    rw [hnow]
    exact hpc
  · refine ⟨h.of_call rfl rfl rfl (hnever _) (hidle _ rfl), .inl rfl, rfl, fun _ hfault => ?_, rfl⟩
    cases hfault
  · subst hrestoring
    refine ⟨h.queued rfl rfl rfl (hnever _)
      (Option.isSome_iff_ne_none.mpr hsome) (by simp) ?_, .inr rfl, rfl, fun hnone => ?_, rfl⟩
    · intro call hwaits
      cases hwaits
      exact .inr (.inr ⟨⟨true, .inl rfl⟩, hsome⟩)
    · cases hnone

/-- A snapshot may or may not have its breakpoint. -/
theorem breakpointSet (hgdb : gdb.Documented chars effect) (hstays : Stays s) {χ : gdb.Choice}
    {place : Place} {found : Option (Nat × UInt64)} {target : gdb.State}
    (h : Undone a m (s.after target)) (hhere : (s.after target).At a m)
    (hcall : s.call = some (.createSnapshot a)) (hcommands : s.commands = [.setBreakpoint place])
    (hexecute : gdb.execute s.target χ (.setBreakpoint place) = some (.breakpoint found, target)) :
    Undone a m ((s.after target).breakpointSet found) ∧
      ((s.after target).breakpointSet found).call = none ∧
      ((s.after target).breakpointSet found).snapshot ≠ none ∧
      ((s.after target).breakpointSet found).At a m ∧
      ((s.after target).breakpointSet found).target = target := by
  have hcall' : (s.after target).call = some (.createSnapshot a) := hcall
  have hinStep := hstays.inStep
  rw [hcommands] at hinStep
  unfold DebugSession.breakpointSet
  rw [hcall']
  rcases hgdb.setBreakpoint hexecute with ⟨hrefused, -⟩ | ⟨num, address, hfound, hnum, -⟩
  · cases hrefused
    dsimp only
    exact ⟨h.made (fun br hbr => (by cases hbr)) rfl rfl rfl rfl, rfl, Option.some_ne_none _,
      ⟨hhere.now, hhere.stop⟩, rfl⟩
  · cases hfound
    dsimp only
    have hfresh : (s.after target).breakpoints.lookupBreakpoint num = none := hinStep.fresh hnum
    rw [add_fresh hfresh, if_pos rfl]
    refine ⟨h.made (fun br hbr => ?_) rfl rfl rfl rfl, rfl, Option.some_ne_none _,
      ⟨hhere.now, hhere.stop⟩, rfl⟩
    cases hbr
    rfl

/-- gdb has stopped, or has said nothing that is understood. -/
theorem stopped (h : Undone a m s) {restoring : Bool} {stop : GdbStop} (hsome : s.snapshot ≠ none)
    (hcall : s.call = some (.stop restoring))
    (hnames : Names s.breakpoints (gdb.view s.target).now stop)
    (haddress : stop.address = 0 ∨ stop.address = (gdb.view s.target).address) :
    Undone a m (s.gdbStopped stop) ∧
      ((s.gdbStopped stop).call = none ∨ (s.gdbStopped stop).call = some (.stop restoring) ∨
        (s.gdbStopped stop).call = some (.pc restoring)) ∧
      (s.gdbStopped stop).snapshot = s.snapshot ∧
      ((s.gdbStopped stop).call = none → (s.gdbStopped stop).fault = none →
        restoring = true → (s.gdbStopped stop).At a m) ∧
      (s.gdbStopped stop).target = s.target := by
  have hstop : Undone a m { s with lastDebuggerStop := some stop } :=
    h.of_call rfl rfl rfl (fun hnone => absurd hnone hsome) h.waits
  simp only [DebugSession.gdbStopped, hcall]
  split
  · refine ⟨hstop.queued rfl rfl rfl (fun hnone => absurd hnone hsome) rfl (by simp) ?_,
      .inr (.inr rfl), rfl, fun hnone => (by cases hnone), rfl⟩
    intro call hwaits
    cases hwaits
    exact .inr (.inr ⟨⟨restoring, .inr rfl⟩, hsome⟩)
  · next hne =>
      obtain ⟨hundone, hcalls, hsnapshot, harrived, htarget⟩ :=
        hstop.continued restoring hsome hnames (haddress.resolve_left hne)
      exact ⟨hundone, hcalls.imp_right .inl, hsnapshot, harrived, htarget⟩

/-- A program that moves has a snapshot. -/
theorem snapshot_of_moving (h : Undone a m s) {restoring : Bool}
    (hcall : s.call = some (.stop restoring) ∨ s.call = some (.pc restoring)) :
    s.snapshot ≠ none := by
  rcases hcall with hcall | hcall <;>
    rcases h.waits _ hcall with ⟨hother, -⟩ | ⟨hother | hother, -⟩ | ⟨-, hsome⟩ <;>
    first | exact hsome | cases hother

/-- Without a snapshot the memory is written and allocated. -/
theorem snapshot_of_memory (h : Undone a m s)
    (hcall : s.call = some .writeMemory ∨ s.call = some .allocateMemory) : s.snapshot = none := by
  rcases hcall with hcall | hcall <;>
    rcases h.waits _ hcall with ⟨hother, -⟩ | ⟨-, hnone⟩ | ⟨⟨restoring, hother | hother⟩, -⟩ <;>
    first | exact hnone | cases hother

/-- gdb has executed a command, and everything that comes of it. -/
theorem execute (h : Undone a m s) (hgdb : gdb.Documented chars effect) (hstays : Stays s)
    {χ : gdb.Choice} (haway : s.StaysAway a χ) (hexecuted : Executed gdb chars χ s s') :
    ∃ command rest answer target m', s.commands = command :: rest ∧
      gdb.execute s.target χ command = some (answer, target) ∧ s'.target = target ∧
      Became effect a command answer (gdb.view s.target) (gdb.view target) m m' ∧
      Undone a m' s' ∧ Outcome a m m' command answer rest s s' := by
  cases hexecuted with
  | @calm command rest answer target hcommands hcalm hqueued hexecute =>
      obtain ⟨m', hbecame, hundone, hat⟩ := h.ran hgdb haway hcommands hexecute
      refine ⟨command, rest, answer, target, m', hcommands, hexecute, rfl, hbecame, hundone,
        .waits rfl rfl rfl rfl rfl rfl ?_ fun hhere => hat hhere ?_⟩
      · rintro size rfl
        cases hcalm
      · rintro ⟨reverse, rfl⟩
        cases hcalm
  | @breakpoint waiting place found target hcall hcommands hawaits hexecute =>
      obtain ⟨m', hbecame, hundone, hat⟩ := h.ran hgdb haway hcommands hexecute
      rcases h.waits waiting hcall with ⟨rfl, hnone⟩ | ⟨rfl | rfl, -⟩ | ⟨⟨restoring, rfl | rfl⟩, -⟩
      · have hsame : m' = m := by
          rcases hbecame with ⟨-, hsame⟩ | ⟨hchanges, -⟩
          · exact hsame
          · cases hchanges
        subst hsame
        obtain ⟨hmade, hidle, hsnapshot, hhere, htarget⟩ := breakpointSet hgdb hstays hundone
          (hat (h.without hnone).2 (by simp)) hcall hcommands hexecute
        exact ⟨_, [], _, target, m', hcommands, hexecute, htarget, hbecame, hmade,
          .made rfl rfl hcall hidle hsnapshot hhere⟩
      · cases hawaits
      · cases hawaits
      · cases hawaits
      · cases hawaits
  | @notRun restoring target hcall hcommands hexecute =>
      exfalso
      refine (hgdb.visits_continue h.visits hexecute fun hforward => ?_).1 rfl
      subst hforward
      obtain ⟨hpassed, hruns⟩ := haway [] hcommands
      exact ⟨hpassed, hruns _ _ hexecute⟩
  | @silent waiting command answer target hcall hunsure hcommands hawaits hexecute hvalue =>
      obtain ⟨m', hbecame, hundone, hat⟩ := h.ran hgdb haway hcommands hexecute
      refine ⟨command, [], answer, target, m', hcommands, hexecute, rfl, hbecame, hundone, ?_⟩
      cases waiting with
      | stop restoring =>
          exact .moves (.inl hcall) (.inr (.inl hcall)) rfl fun hnone => by
            change s.call = none at hnone
            rw [hcall] at hnone
            cases hnone
      | allocateMemory =>
          refine .waits rfl rfl rfl rfl rfl rfl (fun _ _ => hvalue) fun hhere => hat hhere ?_
          rintro ⟨reverse, rfl⟩
          cases hawaits
      | _ => cases hunsure
  | @stopped restoring command lines target stop hcall hcommands hawaits hexecute hsaid hnames
      haddress =>
      obtain ⟨m', hbecame, hundone, -⟩ := h.ran hgdb haway hcommands hexecute
      obtain ⟨hstopped, hcalls, hsnapshot, harrived, htarget⟩ :=
        hundone.stopped (h.snapshot_of_moving (.inl hcall)) hcall hnames haddress
      exact ⟨command, [], _, target, m', hcommands, hexecute, htarget, hbecame, hstopped,
        .moves (.inl hcall) hcalls hsnapshot harrived⟩
  | @printed restoring stop answer target hcall hcommands hexecute hnames haddress =>
      obtain ⟨m', hbecame, hundone, -⟩ := h.ran hgdb haway hcommands hexecute
      obtain ⟨hstopped, hcalls, hsnapshot, harrived, htarget⟩ :=
        hundone.continued restoring (h.snapshot_of_moving (.inr hcall)) hnames haddress
      exact ⟨.printPc, [], _, target, m', hcommands, hexecute, htarget, hbecame, hstopped,
        .moves (.inr hcall) (hcalls.imp_right .inl) hsnapshot harrived⟩
  | @written data address answer target hcall hcommands hexecute =>
      obtain ⟨m', hbecame, hundone, -⟩ := h.ran hgdb haway hcommands hexecute
      refine ⟨_, [], answer, target, m', hcommands, hexecute, rfl, hbecame,
        hundone.of_call rfl rfl rfl (fun _ => rfl) fun call hwaits => ?_,
        .written rfl rfl hcall rfl rfl rfl⟩
      cases hwaits
  | @allocated size value target hcall hcommands hexecute =>
      obtain ⟨m', hbecame, hundone, -⟩ := h.ran hgdb haway hcommands hexecute
      refine ⟨_, [], _, target, m', hcommands, hexecute, rfl, hbecame,
        hundone.of_call rfl rfl rfl (fun _ => rfl) fun call hwaits => ?_,
        .allocated rfl rfl rfl hcall rfl rfl rfl rfl⟩
      cases hwaits

end Undone

/-! ## What the fuzzing thread calls -/

namespace Undone

variable {a : UInt64} {m : M} {s s' : DebugSession M gdb}

theorem waits_of_idle (hidle : s.call = none) : s.Waits a := by
  intro call hwaits
  rw [hidle] at hwaits
  cases hwaits

/-- `CreateSnapshot`, with the program at the address. -/
theorem createSnapshot (h : Undone a m s) (ha : a ≠ 0) (hnone : s.snapshot = none)
    (hbegin : s.begin .createSnapshot = some s') :
    Undone a m s' ∧ s'.call = some (.createSnapshot a) ∧ s'.fault = s.fault := by
  obtain ⟨stop, hstop, haddress⟩ := (h.without hnone).2.stop
  simp only [DebugSession.begin, hnone, hstop, haddress, if_neg ha] at hbegin
  cases hbegin
  refine ⟨h.queued rfl rfl rfl (fun _ => rfl) rfl (by simp) fun call hwaits => ?_, rfl, rfl⟩
  cases hwaits
  exact .inl ⟨rfl, hnone⟩

/-- `DebugContinue`, or `Restore`. -/
theorem continue_ (h : Undone a m s) (hsome : s.snapshot ≠ none) (reverse : Bool) :
    Undone a m (s.wait (.continue_ reverse) (.stop reverse)) := by
  refine h.queued rfl rfl rfl (fun hnone => absurd hnone hsome)
    (Option.isSome_iff_ne_none.mpr hsome) (by simp) fun call hwaits => ?_
  cases hwaits
  exact .inr (.inr ⟨⟨reverse, .inl rfl⟩, hsome⟩)

/-- `Destroy`, with the program at the address; it raises if the snapshot has no breakpoint. -/
theorem destroy (h : Undone a m s) (hstays : Stays s) (hidle : s.call = none) (hat : s.At a m)
    (hbegin : s.begin .destroySnapshot = some s') :
    Undone a m s' ∧ s'.call = none ∧ (s'.fault = none → s'.snapshot = none) := by
  obtain ⟨snapshot, hsnapshot, heq⟩ := Option.map_eq_some_iff.mp hbegin
  cases snapshot with
  | none =>
      cases heq
      refine ⟨h.of_call rfl rfl rfl (fun _ => rfl) (waits_of_idle rfl), rfl, fun hfault => ?_⟩
      cases hfault
  | some br =>
      cases heq
      refine ⟨⟨h.visits, ?_, fun _ => ⟨?_, hat.now, hat.stop⟩, fun br hbr => (by cases hbr), ?_,
        waits_of_idle hidle⟩, hidle, fun _ => rfl⟩
      · show Unrecorded _ (s.commands ++ [.deleteBreakpoint br.breakpointNum] ++ [.recordStop])
        refine (h.unrecorded.concat fun hchanges => ?_).concat fun hchanges => ?_ <;> cases hchanges
      · show recordsAfter _ (s.commands ++ [.deleteBreakpoint br.breakpointNum] ++ [.recordStop]) = _
        rw [recordsAfter_concat]
        rfl
      · show ∀ c ∈ s.commands ++ [.deleteBreakpoint br.breakpointNum] ++ [.recordStop], _
        intro c hc
        refine TargetCommand.fits_of_calm ?_
        rcases List.mem_append.mp hc with hc | hc
        · rcases List.mem_append.mp hc with hc | hc
          · exact hstays.calm_queue hidle c hc
          · rw [List.mem_singleton.mp hc]
            rfl
        · rw [List.mem_singleton.mp hc]
          rfl

/-- A call that changes the memory. -/
theorem change (h : Undone a m s) (hnone : s.snapshot = none) {command : TargetCommand}
    (hchanges : command.changes = true) (hcommands : s'.commands = s.commands ++ [command])
    (htarget : s'.target = s.target) (hsnapshot : s'.snapshot = s.snapshot)
    (hstop : s'.lastDebuggerStop = s.lastDebuggerStop) (hwaits : s'.Waits a) : Undone a m s' := by
  refine h.queued hcommands htarget hsnapshot (fun _ => hstop) ?_ ?_ hwaits
  · rw [hnone]
    cases command <;> first | rfl | cases hchanges
  · rintro rfl
    cases hchanges

end Undone

end InMemoryFuzzing.Gdb

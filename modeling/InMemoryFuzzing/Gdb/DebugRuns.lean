import InMemoryFuzzing.Gdb.DebugSteps

/-!
# The connector and gdb in every run

`Stays` is kept by every call (`Stays.begin`) and every command that gdb executes
(`Stays.execute`), so it holds in every run (`stays`). `Between` is what there is between
a stop and the end of `DebugContinue`.
-/

namespace InMemoryFuzzing.Gdb

open Base Platform DotNet
open DataLog (StopReasonEnum)

variable {M : Type} {chars : CharData} {gdb : Debugger M} {effect : Effect M}

/-! ## Calls -/

namespace Stays

variable {s s' : DebugSession M gdb} (h : Stays s)
include h

omit h in
/-- No call waits. -/
theorem idle (hcall : s.call = none) (hqueue : ∀ c ∈ s.commands, c.calm = true)
    (hinStep : InStep s.breakpoints (gdb.view s.target) (deletes s.commands))
    (hsnapshot : ∀ br, s.snapshot = some (some br) → br ∈ s.breakpoints)
    (hreturned : ∀ r ∈ s.returned, r.Right) (hfault : ∀ e, s.fault = some e → Failed s e) :
    Stays s where
  queued := by
    rw [hcall]
    exact hqueue
  inStep := hinStep
  snapshot := hsnapshot
  restoring hwaits := by
    rw [hcall] at hwaits
    rcases hwaits with hwaits | hwaits <;> cases hwaits
  symbol restoring hwaits := by
    rw [hcall] at hwaits
    cases hwaits
  returned := hreturned
  fault e he := ⟨hcall, hfault e he⟩

theorem calm_queue (hcall : s.call = none) : ∀ c ∈ s.commands, c.calm = true := by
  have hqueued := h.queued
  rw [hcall] at hqueued
  exact hqueued

/-- A call begins to wait for its answer. -/
theorem wait (hidle : s.call = none) (hfault : s.fault = none) {command : TargetCommand} {call : Call}
    (hawaits : call.Awaits command) (hpc : ∀ restoring, call ≠ .pc restoring)
    (hrestoring : call = .stop true → s.snapshot ≠ none) : Stays (s.wait command call) where
  queued := by
    have hqueued : Queued s.commands none := h.calm_queue hidle
    exact hqueued.await hawaits
  inStep := by
    show InStep s.breakpoints (gdb.view s.target) (deletes (s.commands ++ [command]))
    rw [deletes_append, deletes_awaited hawaits, List.append_nil]
    exact h.inStep
  snapshot := h.snapshot
  restoring hwaits := by
    rcases hwaits with hwaits | hwaits
    · exact hrestoring (Option.some.inj hwaits)
    · exact absurd (Option.some.inj hwaits) (hpc true)
  symbol restoring hwaits := absurd (Option.some.inj hwaits) (hpc restoring)
  returned := h.returned
  fault e he := by
    change s.fault = some e at he
    rw [hfault] at he
    cases he

theorem raise (hidle : s.call = none) {e : NetException} (he : Failed s e) : Stays (s.raise e) := by
  refine idle rfl (h.calm_queue hidle) h.inStep h.snapshot h.returned fun e' he' => ?_
  cases he'
  exact he

/-- A command is queued and the call returns. -/
theorem queue (hidle : s.call = none) (hfault : s.fault = none) {command : TargetCommand}
    (hcalm : command.calm = true) {table : Breakpoints}
    (hinStep : InStep table (gdb.view s.target) (deletes (s.commands ++ [command])))
    {snapshot : Option (Option GDBBreakpoint)}
    (hsnapshot : ∀ br, snapshot = some (some br) → br ∈ table) :
    Stays { s.queue command with breakpoints := table, snapshot := snapshot } := by
  have hqueued : Queued s.commands none := h.calm_queue hidle
  refine idle hidle (hqueued.append hcalm) hinStep hsnapshot h.returned fun e he => ?_
  change s.fault = some e at he
  rw [hfault] at he
  cases he

/-- A breakpoint is deleted that is not the one of the snapshot. -/
theorem delete (hidle : s.call = none) (hfault : s.fault = none) {br : GDBBreakpoint}
    (hbr : br ∈ s.breakpoints) (hother : s.snapshot ≠ some (some br)) :
    Stays (s.deleteBreakpoint br) := by
  refine h.queue hidle hfault rfl ?_ fun snapshot hsnapshot => ?_
  · rw [deletes_append]
    exact h.inStep.delete hbr
  · have hmem := h.snapshot snapshot hsnapshot
    refine List.mem_filter.mpr ⟨hmem, decide_eq_true fun hnum => ?_⟩
    rw [h.inStep.unique hmem hbr hnum] at hsnapshot
    exact hother hsnapshot

/-- `Destroy`. -/
theorem destroy (hidle : s.call = none) (hfault : s.fault = none) {br : GDBBreakpoint}
    (hbr : s.snapshot = some (some br)) :
    Stays { (s.deleteBreakpoint br).queue .recordStop with snapshot := none } := by
  have hqueued : Queued s.commands none := h.calm_queue hidle
  refine idle hidle ((hqueued.append rfl).append rfl) ?_ (fun other hother => (by cases hother))
    h.returned fun e he => ?_
  · show InStep _ (gdb.view s.target)
      (deletes (s.commands ++ [.deleteBreakpoint br.breakpointNum] ++ [.recordStop]))
    rw [deletes_append, deletes_append]
    show InStep _ (gdb.view s.target) (deletes s.commands ++ [br.breakpointNum] ++ [])
    rw [List.append_nil]
    exact h.inStep.delete (h.snapshot br hbr)
  · change s.fault = some e at he
    rw [hfault] at he
    cases he

/-- A call of the fuzzing thread. -/
theorem begin (hidle : s.call = none) (hfault : s.fault = none) {act : DebugAct M gdb}
    (hbegin : s.begin act = some s') : Stays s' := by
  cases act with
  | setSoftwareBreakpoint address identifier =>
      cases hbegin
      exact h.wait hidle hfault rfl (fun _ => by simp) fun hstop => (by cases hstop)
  | resolveSymbolToBreakpointAddress symbol =>
      cases hbegin
      exact h.wait hidle hfault trivial (fun _ => by simp) fun hstop => (by cases hstop)
  | delete br =>
      obtain ⟨⟨hbr, hother⟩, heq⟩ := Option.ite_none_right_eq_some.mp hbegin
      cases heq
      exact h.delete hidle hfault hbr hother
  | createSnapshot =>
      rw [DebugSession.begin] at hbegin
      split at hbegin
      · cases hbegin
      · next hnone hlast =>
          cases hbegin
          exact h.raise hidle (.inl ⟨rfl, hlast⟩)
      · next stop hnone hlast =>
          split at hbegin
          · next hzero =>
              cases hbegin
              exact h.raise hidle (.inr (.inl ⟨rfl, stop, hlast, hzero⟩))
          · cases hbegin
            exact h.wait hidle hfault rfl (fun _ => by simp) fun hstop => (by cases hstop)
  | destroySnapshot =>
      obtain ⟨snapshot, hsnapshot, heq⟩ := Option.map_eq_some_iff.mp hbegin
      cases snapshot with
      | none =>
          cases heq
          exact h.raise hidle (.inr (.inr ⟨rfl, .inl hsnapshot⟩))
      | some br =>
          cases heq
          exact h.destroy hidle hfault hsnapshot
  | debugContinue =>
      cases hbegin
      exact h.wait hidle hfault rfl (fun _ => by simp) fun hstop => (by cases hstop)
  | restore =>
      obtain ⟨snapshot, hsnapshot, heq⟩ := Option.map_eq_some_iff.mp hbegin
      cases heq
      refine h.wait hidle hfault rfl (fun _ => by simp) fun _ => ?_
      rw [hsnapshot]
      simp
  | writeMemory data address =>
      obtain ⟨-, heq⟩ := Option.ite_none_right_eq_some.mp hbegin
      cases heq
      exact h.wait hidle hfault trivial (fun _ => by simp) fun hstop => (by cases hstop)
  | allocateMemory size =>
      obtain ⟨-, heq⟩ := Option.ite_none_right_eq_some.mp hbegin
      cases heq
      exact h.wait hidle hfault trivial (fun _ => by simp) fun hstop => (by cases hstop)
  | freeMemory address =>
      obtain ⟨-, heq⟩ := Option.ite_none_right_eq_some.mp hbegin
      cases heq
      refine h.queue hidle hfault rfl ?_ h.snapshot
      rw [deletes_append]
      show InStep s.breakpoints (gdb.view s.target) (deletes s.commands ++ [])
      rw [List.append_nil]
      exact h.inStep
  | execute choice => cases hbegin

end Stays

/-! ## Between a stop and the end of `DebugContinue` -/

/-- The program has stopped, and nothing else is to be done. -/
structure Between (restoring : Bool) (s : DebugSession M gdb) : Prop where
  commands : s.commands = []
  inStep : InStep s.breakpoints (gdb.view s.target) []
  snapshot : ∀ br, s.snapshot = some (some br) → br ∈ s.breakpoints
  restoring : restoring = true → s.snapshot ≠ none
  returned : ∀ r ∈ s.returned, r.Right
  fault : s.fault = none

namespace Between

variable {s : DebugSession M gdb} {restoring : Bool} {stop : GdbStop} (h : Between restoring s)
include h

/-- The call has come to its end. -/
theorem idle {s' : DebugSession M gdb} (hcall : s'.call = none) (hcommands : s'.commands = s.commands)
    (htarget : s'.target = s.target) (hbreakpoints : s'.breakpoints = s.breakpoints)
    (hsnapshot : s'.snapshot = s.snapshot) (hreturned : ∀ r ∈ s'.returned, r.Right)
    (hfault : ∀ e, s'.fault = some e → Failed s' e) : Stays s' := by
  have hnothing : s'.commands = [] := hcommands.trans h.commands
  refine .idle hcall ?_ ?_ ?_ hreturned hfault
  · rw [hnothing]
    exact fun c hc => absurd hc List.not_mem_nil
  · rw [hnothing, hbreakpoints, htarget]
    exact h.inStep
  · rw [hsnapshot, hbreakpoints]
    exact h.snapshot

theorem returns (hright : (⟨stop, (gdb.view s.target).now, s.breakpoints⟩ : Returned M).Right) :
    ∀ r ∈ (s.returns stop).returned, r.Right := by
  intro r hr
  rcases List.mem_append.mp hr with hr | hr
  · exact h.returned r hr
  · rw [List.mem_singleton.mp hr]
    exact hright

/-- `DebugContinue` returns, and `Restore` goes on if it is not at the address. -/
theorem continued (hnames : Names s.breakpoints (gdb.view s.target).now stop)
    (haddress : stop.address = (gdb.view s.target).address) :
    Stays (s.continued restoring stop) := by
  obtain ⟨full, hright, hcases⟩ := continued_cases s restoring hnames haddress
  have hnofault : ∀ (e : NetException) (p : Prop), s.fault = some e → p := by
    intro e p he
    rw [h.fault] at he
    cases he
  rcases hcases with ⟨heq, -⟩ | ⟨hrestoring, heq, hnull⟩ | ⟨hrestoring, heq, -⟩ <;> rw [heq]
  · exact h.idle rfl rfl rfl rfl rfl (h.returns hright) fun e he => hnofault e _ he
  · refine h.idle rfl rfl rfl rfl rfl (h.returns hright) fun e he => ?_
    cases he
    refine .inr (.inr ⟨rfl, ?_⟩)
    obtain ⟨snapshot, hsnapshot⟩ := Option.ne_none_iff_exists'.mp (h.restoring hrestoring)
    cases snapshot with
    | none => exact .inl hsnapshot
    | some br =>
        exact .inr ⟨br, full, hsnapshot, rfl, hnull.resolve_right fun hnot => hnot br hsnapshot⟩
  · have hidle : Stays { s.returns full with call := none } :=
      h.idle rfl rfl rfl rfl rfl (h.returns hright) fun e he => hnofault e _ he
    exact hidle.wait rfl h.fault rfl (fun _ => by simp) fun _ => h.restoring hrestoring

/-- The address is asked for. -/
theorem wait (hnames : Names s.breakpoints (gdb.view s.target).now stop) (hzero : stop.address = 0) :
    Stays ({ s with lastDebuggerStop := some stop }.wait .printPc (.pc restoring)) where
  queued := by
    show Queued (s.commands ++ [.printPc]) (some (.pc restoring))
    rw [h.commands]
    exact .inl ⟨[], .printPc, rfl, fun c hc => absurd hc List.not_mem_nil, trivial⟩
  inStep := by
    show InStep s.breakpoints (gdb.view s.target) (deletes (s.commands ++ [.printPc]))
    rw [h.commands]
    exact h.inStep
  snapshot := h.snapshot
  restoring hwaits := by
    rcases hwaits with hwaits | hwaits
    · cases hwaits
    · cases hwaits
      exact h.restoring rfl
  symbol other hwaits := by
    refine ⟨?_, stop, rfl, hzero, hnames⟩
    show s.commands ++ [.printPc] = [.printPc]
    rw [h.commands]
    rfl
  returned := h.returned
  fault e he := by
    change s.fault = some e at he
    rw [h.fault] at he
    cases he

end Between

/-! ## Every run -/

/-- Without a waiting command, or behind it. -/
theorem Stays.between {s : DebugSession M gdb} (h : Stays s) {restoring : Bool} {target : gdb.State}
    (hcall : s.call = some (.stop restoring) ∨ s.call = some (.pc restoring))
    (hinStep : InStep s.breakpoints (gdb.view target) []) : Between restoring (s.after target) where
  commands := rfl
  inStep := hinStep
  snapshot := h.snapshot
  restoring htrue := by
    subst htrue
    exact h.restoring hcall
  returned := h.returned
  fault := h.no_fault (by rcases hcall with hcall | hcall <;> simp [hcall])

theorem add_fresh {s : DebugSession M gdb} {br : GDBBreakpoint}
    (hfresh : s.breakpoints.lookupBreakpoint br.breakpointNum = none) (snapshot : Bool) :
    s.add br snapshot =
      if snapshot then
        { s with breakpoints := s.breakpoints ++ [br], call := none }.snapshotMade (some br)
      else { s with breakpoints := s.breakpoints ++ [br], call := none } := by
  rw [DebugSession.add, hfresh]

namespace Stays

variable {s s' : DebugSession M gdb} (h : Stays s)
include h

/-- gdb has set or refused a breakpoint that a call waits for. -/
theorem breakpointSet (hgdb : gdb.Documented chars effect) {choice : gdb.Choice} {waiting : Call}
    {place : Place} {found : Option (Nat × UInt64)} {target : gdb.State}
    (hcall : s.call = some waiting) (hcommands : s.commands = [.setBreakpoint place])
    (hawaits : waiting.Awaits (.setBreakpoint place))
    (hexecute : gdb.execute s.target choice (.setBreakpoint place) =
      some (.breakpoint found, target)) : Stays ((s.after target).breakpointSet found) := by
  have hinStep : InStep s.breakpoints (gdb.view s.target) [] := by
    have hinStep := h.inStep
    rw [hcommands] at hinStep
    exact hinStep
  have hnofault : ∀ (e : NetException) (p : Prop), s.fault = some e → p := by
    intro e p he
    rw [h.no_fault (by simp [hcall])] at he
    cases he
  have hnothing : ∀ c ∈ ([] : List TargetCommand), c.calm = true :=
    fun c hc => absurd hc List.not_mem_nil
  have hone : ∀ command : TargetCommand, command.calm = true → ∀ c ∈ [command], c.calm = true :=
    fun command hcalm c hc => by rw [List.mem_singleton.mp hc]; exact hcalm
  have hcall' : (s.after target).call = some waiting := hcall
  rcases hgdb.setBreakpoint hexecute with ⟨hrefused, hview⟩ |
    ⟨num, address, hfound, hnum, hint, hat, hview⟩
  · cases hrefused
    have hinStep' : InStep s.breakpoints (gdb.view target) [] := by
      rw [hview]
      exact hinStep
    cases waiting with
    | setSoftwareBreakpoint a identifier =>
        unfold DebugSession.breakpointSet
        rw [hcall']
        dsimp only
        exact .idle rfl hnothing hinStep' h.snapshot h.returned fun e he => hnofault e _ he
    | createSnapshot a =>
        unfold DebugSession.breakpointSet
        rw [hcall']
        dsimp only
        exact .idle rfl (hone .record rfl) hinStep' (fun br hbr => by cases hbr) h.returned
          fun e he => hnofault e _ he
    | resolveSymbol =>
        unfold DebugSession.breakpointSet
        rw [hcall']
        dsimp only
        exact .idle rfl hnothing hinStep' h.snapshot h.returned fun e he => hnofault e _ he
    | _ => cases hawaits
  · cases hfound
    have hfresh := hinStep.fresh hnum
    have hadded : ∀ (a : UInt64) identifier, place = .address a →
        InStep (s.breakpoints ++ [⟨num, a, identifier⟩]) (gdb.view target) [] := by
      intro a identifier hplace
      rw [hview, hat a hplace]
      exact hinStep.setBreakpoint hnum hint a identifier
    cases waiting with
    | setSoftwareBreakpoint a identifier =>
        unfold DebugSession.breakpointSet
        rw [hcall']
        dsimp only
        rw [add_fresh hfresh, if_neg Bool.false_ne_true]
        exact .idle rfl hnothing (hadded a identifier hawaits)
          (fun br hbr => List.mem_append_left _ (h.snapshot br hbr)) h.returned
          fun e he => hnofault e _ he
    | createSnapshot a =>
        unfold DebugSession.breakpointSet
        rw [hcall']
        dsimp only
        rw [add_fresh hfresh, if_pos rfl]
        refine .idle rfl (hone .record rfl) (hadded a "_snapshot" hawaits) (fun br hbr => ?_)
          h.returned fun e he => hnofault e _ he
        cases hbr
        exact List.mem_append_right _ (List.mem_singleton.mpr rfl)
    | resolveSymbol =>
        unfold DebugSession.breakpointSet
        rw [hcall']
        dsimp only
        refine .idle rfl (hone (.deleteBreakpoint num) rfl) ?_ h.snapshot h.returned
          fun e he => hnofault e _ he
        show InStep s.breakpoints (gdb.view target) (deletes [.deleteBreakpoint num])
        rw [hview]
        exact hinStep.resolve hnum hint address
    | _ => cases hawaits

/-- A call that may wait for ever. -/
theorem unsure (hgdb : gdb.Documented chars effect) {choice : gdb.Choice} {waiting : Call}
    {command : TargetCommand} {answer : Answer} {target : gdb.State}
    (hcall : s.call = some waiting) (hunsure : waiting.unsure = true)
    (hcommands : s.commands = [command]) (hawaits : waiting.Awaits command)
    (hexecute : gdb.execute s.target choice command = some (answer, target)) :
    Stays (s.after target) where
  queued := by
    show Queued [] s.call
    rw [hcall]
    exact .inr ⟨rfl, hunsure⟩
  inStep := by
    refine h.inStep_after hgdb hcommands ?_ hexecute
    rintro place rfl
    cases waiting with
    | stop restoring => exact hawaits
    | allocateMemory => exact hawaits
    | _ => cases hunsure
  snapshot := h.snapshot
  restoring := h.restoring
  symbol restoring hwaits := by
    change s.call = some (.pc restoring) at hwaits
    rw [hcall] at hwaits
    cases hwaits
    cases hunsure
  returned := h.returned
  fault := h.fault

/-- gdb has executed a command. -/
theorem execute (hgdb : gdb.Documented chars effect) {choice : gdb.Choice}
    (hexecuted : Executed gdb chars choice s s') : Stays s' := by
  cases hexecuted with
  | @calm command rest answer target hcommands hcalm hqueued hexecute =>
      refine ⟨hqueued, ?_, h.snapshot, h.restoring, fun restoring hwaits => ?_, h.returned, h.fault⟩
      · have hinStep := h.inStep
        rw [hcommands] at hinStep
        refine hinStep.executed hgdb ?_ hexecute
        rintro place rfl
        cases hcalm
      · have hone := (h.symbol restoring hwaits).1
        rw [hcommands] at hone
        cases hone
        cases hcalm
  | breakpoint hcall hcommands hawaits hexecute =>
      exact h.breakpointSet hgdb hcall hcommands hawaits hexecute
  | @notRun restoring target hcall hcommands hexecute =>
      refine ⟨?_, ?_, h.snapshot, h.restoring, fun restoring hwaits => ?_, h.returned, h.fault⟩
      · show Queued [.run] s.call
        rw [hcall]
        exact .inl ⟨[], .run, rfl, fun c hc => absurd hc List.not_mem_nil, trivial⟩
      · exact h.inStep_after hgdb hcommands (by simp) hexecute
      · change s.call = some (.pc restoring) at hwaits
        rw [hcall] at hwaits
        cases hwaits
  | silent hcall hunsure hcommands hawaits hexecute hvalue =>
      exact h.unsure hgdb hcall hunsure hcommands hawaits hexecute
  | @stopped restoring command lines target stop hcall hcommands hawaits hexecute hsaid hnames
      haddress =>
      have hbetween : Between restoring (s.after target) := by
        refine h.between (.inl hcall) (h.inStep_after hgdb hcommands ?_ hexecute)
        rintro place rfl
        cases hawaits
      have hcall' : (s.after target).call = some (.stop restoring) := hcall
      simp only [DebugSession.gdbStopped, hcall']
      split
      · next hzero => exact hbetween.wait hnames hzero
      · next hne =>
          have hnoted : Between restoring { s.after target with lastDebuggerStop := some stop } :=
            ⟨hbetween.commands, hbetween.inStep, hbetween.snapshot, hbetween.restoring,
              hbetween.returned, hbetween.fault⟩
          exact hnoted.continued hnames (haddress.resolve_left hne)
  | printed hcall hcommands hexecute hnames haddress =>
      have hinStep := h.inStep_after hgdb hcommands (by simp) hexecute
      exact (h.between (.inr hcall) hinStep).continued hnames haddress
  | written hcall hcommands hexecute =>
      exact .idle rfl (fun c hc => absurd hc List.not_mem_nil)
        (h.inStep_after hgdb hcommands (by simp) hexecute) h.snapshot h.returned
        fun e he => (h.fault e he).2
  | allocated hcall hcommands hexecute =>
      exact .idle rfl (fun c hc => absurd hc List.not_mem_nil)
        (h.inStep_after hgdb hcommands (by simp) hexecute) h.snapshot h.returned
        fun e he => (h.fault e he).2

end Stays

theorem stays_start {target : gdb.State} (hnone : (gdb.view target).breakpoints = [])
    (hint : (gdb.view target).lastNumber < 2 ^ 31) : Stays (.start target : DebugSession M gdb) :=
  .idle rfl (fun c hc => absurd hc List.not_mem_nil) (.start hnone hint)
    (fun br hbr => by cases hbr) (fun r hr => absurd hr List.not_mem_nil) fun e he => by cases he

/-- It is kept by every step. -/
theorem Stays.step (hchars : chars.Ascii) (hgdb : gdb.Documented chars effect)
    {s s' : DebugSession M gdb} (h : Stays s) {act : DebugAct M gdb}
    (hstep : s.step chars act = some s') : Stays s' := by
  cases act with
  | execute choice => exact h.execute hgdb (h.executed hchars hgdb hstep)
  | _ =>
      obtain ⟨⟨hidle, hfault⟩, hbegin⟩ := Option.ite_none_right_eq_some.mp hstep
      exact h.begin hidle hfault hbegin

theorem stays (hchars : chars.Ascii) (hgdb : gdb.Documented chars effect) {target : gdb.State}
    (hnone : (gdb.view target).breakpoints = []) (hint : (gdb.view target).lastNumber < 2 ^ 31) :
    (debugSystem chars gdb target).Inductive TSys.anyStep Stays where
  init := by
    rintro s rfl
    exact stays_start hnone hint
  step := fun _ _ _ h _ hstep => h.step hchars hgdb hstep

end InMemoryFuzzing.Gdb

import InMemoryFuzzing.Gdb.DebugLogic

/-!
# What gdb's next step can be

`Stays` is what holds in every run (`Gdb/DebugRuns.lean`):

* a command that is waited for is the last one of the queue;
* the breakpoints of both sides are in step;
* the breakpoint of the snapshot is one of them;
* every stop that `DebugContinue` has returned was where the program was.

`Executed` — where it does, all that can become of a command that gdb executes.
-/

namespace InMemoryFuzzing.Gdb

open Base Platform DotNet
open DataLog (StopReasonEnum)

variable {M : Type} {chars : CharData} {gdb : Debugger M} {effect : Effect M}

/-- The exceptions there can be: those of the constructor of `GDBSnapshot`, and null where
gdb has not set the breakpoint of the snapshot, or has stopped at none. -/
def Failed (s : DebugSession M gdb) (e : NetException) : Prop :=
  e = .argument "No last stop address found" ∧ s.lastDebuggerStop = none ∨
  e = .argument "Last stop does not provide address" ∧
    (∃ stop, s.lastDebuggerStop = some stop ∧ stop.address = 0) ∨
  e = .nullReference ∧ (s.snapshot = some none ∨
    ∃ br stop, s.snapshot = some (some br) ∧ s.lastDebuggerStop = some stop ∧ stop.breakpoint = none)

structure Stays (s : DebugSession M gdb) : Prop where
  queued : Queued s.commands s.call
  inStep : InStep s.breakpoints (gdb.view s.target) (deletes s.commands)
  snapshot : ∀ br, s.snapshot = some (some br) → br ∈ s.breakpoints
  restoring : s.call = some (.stop true) ∨ s.call = some (.pc true) → s.snapshot ≠ none
  symbol : ∀ restoring, s.call = some (.pc restoring) → s.commands = [.printPc] ∧
    ∃ stop, s.lastDebuggerStop = some stop ∧ stop.address = 0 ∧
      Names s.breakpoints (gdb.view s.target).now stop
  returned : ∀ r ∈ s.returned, r.Right
  fault : ∀ e, s.fault = some e → s.call = none ∧ Failed s e

/-! ## `DebugContinue` returns -/

/-- `DebugContinue` has returned the stop. -/
def DebugSession.returns (stop : GdbStop) (s : DebugSession M gdb) : DebugSession M gdb :=
  { s with
    lastDebuggerStop := some stop
    returned := s.returned ++ [(⟨stop, (gdb.view s.target).now, s.breakpoints⟩ : Returned M)] }

theorem goesOn_none {s : DebugSession M gdb} {stop : GdbStop} (h : s.goesOn stop = none) :
    stop.breakpoint = none ∨ ∀ br, s.snapshot ≠ some (some br) := by
  cases hbreakpoint : stop.breakpoint with
  | none => exact .inl rfl
  | some br =>
      refine .inr fun myBreakpoint hsnapshot => ?_
      rw [DebugSession.goesOn, hbreakpoint, hsnapshot] at h
      cases h

theorem goesOn_some {s : DebugSession M gdb} {stop : GdbStop} {goes : Bool}
    (h : s.goesOn stop = some goes) : ∃ br myBreakpoint, stop.breakpoint = some br ∧
      s.snapshot = some (some myBreakpoint) ∧ goes = decide (br.address ≠ myBreakpoint.address) := by
  rw [DebugSession.goesOn] at h
  split at h
  · next br myBreakpoint hbreakpoint hsnapshot =>
      exact ⟨br, myBreakpoint, hbreakpoint, hsnapshot, (Option.some.inj h).symm⟩
  · cases h

/-- The breakpoint is looked up if there is none, and `Restore` may go on or raise. -/
theorem continued_cases (s : DebugSession M gdb) (restoring : Bool) {stop : GdbStop}
    (hnames : Names s.breakpoints (gdb.view s.target).now stop)
    (haddress : stop.address = (gdb.view s.target).address) :
    ∃ full : GdbStop, (⟨full, (gdb.view s.target).now, s.breakpoints⟩ : Returned M).Right ∧
      (s.continued restoring stop = { s.returns full with call := none } ∧
          (restoring = true → ∃ br myBreakpoint, full.breakpoint = some br ∧
            s.snapshot = some (some myBreakpoint) ∧ br.address = myBreakpoint.address) ∨
        restoring = true ∧ s.continued restoring stop = (s.returns full).raise .nullReference ∧
          (full.breakpoint = none ∨ ∀ br, s.snapshot ≠ some (some br)) ∨
        restoring = true ∧
          s.continued restoring stop = (s.returns full).wait (.continue_ true) (.stop true) ∧
          ∃ br myBreakpoint, full.breakpoint = some br ∧
            s.snapshot = some (some myBreakpoint) ∧ br.address ≠ myBreakpoint.address) := by
  obtain ⟨full, hfull, hright⟩ : ∃ full : GdbStop,
      (if stop.stopReason = .breakpoint ∧ stop.breakpoint = none then
        { stop with breakpoint := s.breakpoints.lookupBreakpointByAddress stop.address }
      else stop) = full ∧ (⟨full, (gdb.view s.target).now, s.breakpoints⟩ : Returned M).Right := by
    split
    · next hlookup =>
        obtain ⟨moment, hnow⟩ := Option.ne_none_iff_exists'.mp (hnames.running hlookup.1)
        have hat := haddress.trans ((gdb.view s.target).address_of_now hnow)
        refine ⟨_, rfl, haddress, ⟨fun br hbr => ?_, fun _ => hlookup.1, hnames.running⟩, ?_⟩
        · obtain ⟨hmem, hfound⟩ := lookupBreakpointByAddress_some hbr
          exact ⟨hmem, moment, hnow, hfound.trans hat⟩
        · exact fun _ hnone br hbr => lookupBreakpointByAddress_none hnone br hbr
    · next hlookup =>
        exact ⟨stop, rfl, haddress, hnames, fun hreason hnone => absurd ⟨hreason, hnone⟩ hlookup⟩
  refine ⟨full, hright, ?_⟩
  have hcontinued : s.continued restoring stop =
      if restoring then (s.returns full).restored full else { s.returns full with call := none } := by
    unfold DebugSession.continued
    dsimp only
    rw [hfull]
    rfl
  rw [hcontinued]
  cases restoring with
  | false => exact .inl ⟨rfl, fun h => (by cases h)⟩
  | true =>
      rw [if_pos rfl, DebugSession.restored]
      cases hgoes : (s.returns full).goesOn full with
      | none => exact .inr (.inl ⟨rfl, rfl, goesOn_none hgoes⟩)
      | some goes =>
          obtain ⟨br, myBreakpoint, hbr, hsnapshot, rfl⟩ := goesOn_some hgoes
          by_cases hsame : br.address = myBreakpoint.address
          · rw [decide_eq_false (not_not_intro hsame)]
            exact .inl ⟨rfl, fun _ => ⟨br, myBreakpoint, hbr, hsnapshot, hsame⟩⟩
          · rw [decide_eq_true hsame]
            exact .inr (.inr ⟨rfl, rfl, br, myBreakpoint, hbr, hsnapshot, hsame⟩)

/-! ## Executing a command -/

/-- The last command has been executed. -/
def DebugSession.after (target : gdb.State) (s : DebugSession M gdb) : DebugSession M gdb :=
  { s with commands := [], target := target }

/-- What can become of the next command. Nothing waits for it; or it is the last one, and a
breakpoint is set or refused, the program has to be started, nothing is reported, a
stop is, its address has come, or the memory is written or allocated. -/
inductive Executed (gdb : Debugger M) (chars : CharData) (choice : gdb.Choice)
    (s : DebugSession M gdb) : DebugSession M gdb → Prop
  | calm {command : TargetCommand} {rest : List TargetCommand} {answer : Answer} {target : gdb.State}
      (hcommands : s.commands = command :: rest) (hcalm : command.calm = true)
      (hqueued : Queued rest s.call)
      (hexecute : gdb.execute s.target choice command = some (answer, target)) :
      Executed gdb chars choice s { s with commands := rest, target := target }
  | breakpoint {waiting : Call} {place : Place} {found : Option (Nat × UInt64)} {target : gdb.State}
      (hcall : s.call = some waiting) (hcommands : s.commands = [.setBreakpoint place])
      (hawaits : waiting.Awaits (.setBreakpoint place))
      (hexecute : gdb.execute s.target choice (.setBreakpoint place) =
        some (.breakpoint found, target)) :
      Executed gdb chars choice s ((s.after target).breakpointSet found)
  | notRun {restoring : Bool} {target : gdb.State} (hcall : s.call = some (.stop restoring))
      (hcommands : s.commands = [.continue_ restoring])
      (hexecute : gdb.execute s.target choice (.continue_ restoring) = some (.notRun, target)) :
      Executed gdb chars choice s ((s.after target).queue .run)
  | silent {waiting : Call} {command : TargetCommand} {answer : Answer} {target : gdb.State}
      (hcall : s.call = some waiting) (hunsure : waiting.unsure = true)
      (hcommands : s.commands = [command]) (hawaits : waiting.Awaits command)
      (hexecute : gdb.execute s.target choice command = some (answer, target))
      (hvalue : ∀ value, answer ≠ .value value) :
      Executed gdb chars choice s (s.after target)
  | stopped {restoring : Bool} {command : TargetCommand} {lines : List (List Char)}
      {target : gdb.State} {stop : GdbStop} (hcall : s.call = some (.stop restoring))
      (hcommands : s.commands = [command]) (hawaits : (Call.stop restoring).Awaits command)
      (hexecute : gdb.execute s.target choice command = some (.output lines, target))
      (hsaid : ¬∀ line ∈ lines, Unclaimed chars line)
      (hnames : Names s.breakpoints (gdb.view target).now stop)
      (haddress : stop.address = 0 ∨ stop.address = (gdb.view target).address) :
      Executed gdb chars choice s ((s.after target).gdbStopped stop)
  | printed {restoring : Bool} {stop : GdbStop} {answer : Answer} {target : gdb.State}
      (hcall : s.call = some (.pc restoring)) (hcommands : s.commands = [.printPc])
      (hexecute : gdb.execute s.target choice .printPc = some (answer, target))
      (hnames : Names s.breakpoints (gdb.view target).now stop)
      (haddress : stop.address = (gdb.view target).address) :
      Executed gdb chars choice s ((s.after target).continued restoring stop)
  | written {data : List UInt8} {address : UInt64} {answer : Answer} {target : gdb.State}
      (hcall : s.call = some .writeMemory) (hcommands : s.commands = [.restore data address])
      (hexecute : gdb.execute s.target choice (.restore data address) = some (answer, target)) :
      Executed gdb chars choice s { s.after target with call := none }
  | allocated {size : UInt64} {value : Option UInt64} {target : gdb.State}
      (hcall : s.call = some .allocateMemory) (hcommands : s.commands = [.malloc size])
      (hexecute : gdb.execute s.target choice (.malloc size) = some (.value value, target)) :
      Executed gdb chars choice s { s.after target with
        allocatedMemory := value.filter fun address => address ≠ 0
        call := none }

namespace Debugger.Documented

variable (h : gdb.Documented chars effect)
include h

/-- The breakpoints change only when one is set or deleted. -/
theorem keeps {g g' : gdb.State} {χ : gdb.Choice} {command : TargetCommand} {answer : Answer}
    (hexecute : gdb.execute g χ command = some (answer, g'))
    (hset : ∀ place, command ≠ .setBreakpoint place)
    (hdelete : ∀ breakpointNum, command ≠ .deleteBreakpoint breakpointNum) :
    (gdb.view g').breakpoints = (gdb.view g).breakpoints ∧
      (gdb.view g').lastNumber = (gdb.view g).lastNumber := by
  cases command with
  | setBreakpoint place => exact absurd rfl (hset place)
  | deleteBreakpoint breakpointNum => exact absurd rfl (hdelete breakpointNum)
  | continue_ reverse =>
      cases hnow : (gdb.view g).now with
      | none =>
          rw [(h.notRun hexecute hnow).2]
          exact ⟨rfl, rfl⟩
      | some moment =>
          cases reverse with
          | false =>
              obtain ⟨lines, now, recording, past, -, -, hview, -⟩ := h.continue_ hexecute hnow
              rw [hview]
              exact ⟨rfl, rfl⟩
          | true =>
              obtain ⟨lines, -, -, ⟨hview, -⟩ | ⟨skipped, now, past, -, -, hview⟩⟩ :=
                h.reverseContinue hexecute hnow
              · rw [hview]
                exact ⟨rfl, rfl⟩
              · rw [hview]
                exact ⟨rfl, rfl⟩
  | run =>
      obtain ⟨lines, now, -, -, hview⟩ := h.run hexecute
      rw [hview]
      exact ⟨rfl, rfl⟩
  | printPc =>
      rw [(h.printPc hexecute).2]
      exact ⟨rfl, rfl⟩
  | record =>
      rcases h.record hexecute with hview | ⟨-, hview⟩
      · rw [hview]
        exact ⟨rfl, rfl⟩
      · rw [hview]
        exact ⟨rfl, rfl⟩
  | recordStop =>
      rw [h.recordStop hexecute]
      exact ⟨rfl, rfl⟩
  | _ =>
      obtain ⟨hbreakpoints, hlast, -⟩ := h.change rfl hexecute
      exact ⟨hbreakpoints, hlast⟩

/-- A program that goes on stops, or has to be started. -/
theorem continues {g g' : gdb.State} {χ : gdb.Choice} {reverse : Bool} {answer : Answer}
    (hexecute : gdb.execute g χ (.continue_ reverse) = some (answer, g')) :
    answer = .notRun ∨ ∃ lines, answer = .output lines ∧ (gdb.view g').Reports chars lines := by
  cases hnow : (gdb.view g).now with
  | none => exact .inl (h.notRun hexecute hnow).1
  | some moment =>
      cases reverse with
      | false =>
          obtain ⟨lines, -, -, -, hanswer, hreports, -⟩ := h.continue_ hexecute hnow
          exact .inr ⟨lines, hanswer, hreports⟩
      | true =>
          obtain ⟨lines, hanswer, hreports, -⟩ := h.reverseContinue hexecute hnow
          exact .inr ⟨lines, hanswer, hreports⟩

end Debugger.Documented

theorem InStep.executed (hgdb : gdb.Documented chars effect) {table : Breakpoints}
    {g g' : gdb.State} {χ : gdb.Choice} {command : TargetCommand} {rest : List TargetCommand}
    {answer : Answer} (h : InStep table (gdb.view g) (deletes (command :: rest)))
    (hset : ∀ place, command ≠ .setBreakpoint place)
    (hexecute : gdb.execute g χ command = some (answer, g')) :
    InStep table (gdb.view g') (deletes rest) := by
  by_cases hdelete : ∃ breakpointNum, command = .deleteBreakpoint breakpointNum
  · obtain ⟨breakpointNum, rfl⟩ := hdelete
    rw [hgdb.deleteBreakpoint hexecute]
    exact h.deleted
  · obtain ⟨hbreakpoints, hlast⟩ :=
      hgdb.keeps hexecute hset fun breakpointNum hcommand => hdelete ⟨breakpointNum, hcommand⟩
    have hsame : deletes (command :: rest) = deletes rest := by
      cases command with
      | deleteBreakpoint breakpointNum => exact absurd ⟨breakpointNum, rfl⟩ hdelete
      | _ => rfl
    rw [hsame] at h
    exact h.move hbreakpoints hlast

/-- A stop is read. -/
theorem received_cases (hchars : chars.Ascii) (s : DebugSession M gdb)
    (hinStep : InStep s.breakpoints (gdb.view s.target) []) {lines : List (List Char)}
    (hreports : (gdb.view s.target).Reports chars lines) :
    s.received chars lines = s ∨ (¬∀ line ∈ lines, Unclaimed chars line) ∧
      ∃ stop, s.received chars lines = s.gdbStopped stop ∧
        Names s.breakpoints (gdb.view s.target).now stop ∧
        (stop.address = 0 ∨ stop.address = (gdb.view s.target).address) := by
  unfold DebugSession.received
  rcases hreports.received hchars hinStep with hnothing | ⟨hsaid, stop, hstop, hnames, haddress⟩
  · rw [hnothing]
    exact .inl rfl
  · rw [hstop]
    exact .inr ⟨hsaid, stop, rfl, hnames, haddress⟩

theorem answered_calm {command : TargetCommand} (hcalm : command.calm = true) (answer : Answer)
    (s : DebugSession M gdb) : s.answered chars command answer = s := by
  cases command <;> first | rfl | cases hcalm

namespace Stays

variable {s s' : DebugSession M gdb} (h : Stays s)
include h

theorem no_fault (hcall : s.call ≠ none) : s.fault = none := by
  cases hfault : s.fault with
  | none => rfl
  | some e => exact absurd (h.fault e hfault).1 hcall

/-- The breakpoints behind the last command. -/
theorem inStep_after (hgdb : gdb.Documented chars effect) {choice : gdb.Choice}
    {command : TargetCommand} {answer : Answer} {target : gdb.State}
    (hcommands : s.commands = [command]) (hset : ∀ place, command ≠ .setBreakpoint place)
    (hexecute : gdb.execute s.target choice command = some (answer, target)) :
    InStep s.breakpoints (gdb.view target) [] := by
  have hinStep := h.inStep
  rw [hcommands] at hinStep
  exact hinStep.executed hgdb hset hexecute

/-- The program has run, and what gdb has written is read. -/
theorem executed_output (hchars : chars.Ascii) (hgdb : gdb.Documented chars effect)
    {choice : gdb.Choice} {restoring : Bool} {command : TargetCommand} {lines : List (List Char)}
    {target : gdb.State} (hcall : s.call = some (.stop restoring)) (hcommands : s.commands = [command])
    (hawaits : (Call.stop restoring).Awaits command)
    (hexecute : gdb.execute s.target choice command = some (.output lines, target))
    (hreports : (gdb.view target).Reports chars lines) :
    Executed gdb chars choice s ((s.after target).received chars lines) := by
  have hset : ∀ place, command ≠ .setBreakpoint place := by
    rintro place rfl
    cases hawaits
  have hinStep := h.inStep_after hgdb hcommands hset hexecute
  rcases received_cases hchars (s.after target) hinStep hreports with
    hsilent | ⟨hsaid, stop, hstop, hnames, haddress⟩
  · rw [hsilent]
    exact .silent hcall rfl hcommands hawaits hexecute (by simp)
  · rw [hstop]
    exact .stopped hcall hcommands hawaits hexecute hsaid hnames haddress

theorem executed (hchars : chars.Ascii) (hgdb : gdb.Documented chars effect) {choice : gdb.Choice}
    (hstep : s.step chars (.execute choice) = some s') : Executed gdb chars choice s s' := by
  rw [DebugSession.step] at hstep
  split at hstep
  · cases hstep
  · next command rest hcommands =>
      obtain ⟨⟨answer, target⟩, hexecute, rfl⟩ := Option.map_eq_some_iff.mp hstep
      change gdb.execute s.target choice command = some (answer, target) at hexecute
      have hqueued := h.queued
      rw [hcommands] at hqueued
      rcases hqueued.next with ⟨hcalm, hrest⟩ | ⟨rfl, waiting, hcall, hawaits⟩
      · show Executed gdb chars choice s
          (DebugSession.answered chars command answer { s with commands := rest, target := target })
        rw [answered_calm hcalm]
        exact .calm hcommands hcalm hrest hexecute
      · show Executed gdb chars choice s ((s.after target).answered chars command answer)
        cases command with
        | setBreakpoint place =>
            obtain ⟨found, rfl⟩ : ∃ found, answer = .breakpoint found := by
              rcases hgdb.setBreakpoint hexecute with ⟨rfl, -⟩ | ⟨num, address, rfl, -⟩
              · exact ⟨_, rfl⟩
              · exact ⟨_, rfl⟩
            exact .breakpoint hcall hcommands hawaits hexecute
        | continue_ reverse =>
            cases waiting with
            | stop restoring =>
                obtain rfl : reverse = restoring := hawaits
                rcases hgdb.continues hexecute with rfl | ⟨lines, rfl, hreports⟩
                · exact .notRun hcall hcommands hexecute
                · exact h.executed_output hchars hgdb hcall hcommands rfl hexecute hreports
            | _ => cases hawaits
        | run =>
            cases waiting with
            | stop restoring =>
                obtain ⟨lines, now, rfl, hreports, -⟩ := hgdb.run hexecute
                exact h.executed_output hchars hgdb hcall hcommands trivial hexecute hreports
            | _ => cases hawaits
        | printPc =>
            cases waiting with
            | pc restoring =>
                obtain ⟨rfl, hview⟩ := hgdb.printPc hexecute
                obtain ⟨-, stop, hstop, hzero, hnames⟩ := h.symbol restoring hcall
                have hprinted : (s.after target).answered chars .printPc
                    (.value ((gdb.view s.target).now.map Moment.pc)) =
                    (s.after target).continued restoring
                      { stop with address := (gdb.view target).address } := by
                  show (s.after target).printed ((gdb.view s.target).now.map Moment.pc) = _
                  have hcall' : (s.after target).call = some (.pc restoring) := hcall
                  have hstop' : (s.after target).lastDebuggerStop = some stop := hstop
                  simp only [DebugSession.printed, hcall', hstop', hzero, hview, Target.address]
                rw [hprinted]
                rw [← hview] at hnames
                exact .printed hcall hcommands hexecute
                  ⟨hnames.known, hnames.reason, hnames.running⟩ rfl
            | _ => cases hawaits
        | restore data address =>
            cases waiting with
            | writeMemory => exact .written hcall hcommands hexecute
            | _ => cases hawaits
        | malloc size =>
            cases waiting with
            | allocateMemory =>
                cases answer with
                | value value =>
                    have hprinted : (s.after target).answered chars (.malloc size) (.value value) =
                        { s.after target with
                          allocatedMemory := value.filter fun address => address ≠ 0
                          call := none } := by
                      show (s.after target).printed value = _
                      have hcall' : (s.after target).call = some .allocateMemory := hcall
                      simp only [DebugSession.printed, hcall']
                    rw [hprinted]
                    exact .allocated hcall hcommands hexecute
                | _ => exact .silent hcall rfl hcommands hawaits hexecute (by simp)
            | _ => cases hawaits
        | _ => cases hawaits.not_calm

end Stays

end InMemoryFuzzing.Gdb

import InMemoryFuzzing.Gdb.BreakpointTable

/-!
# What a command leads to

`Queued` — a command that is waited for is the last one of the queue; when it has been
executed and nothing has come of it, the call waits for ever. `Target.Reports.received` — what is
read of a stop is where the program is. `Executed` — all that can become of a command
that gdb executes.
-/

namespace InMemoryFuzzing.Gdb

open Base Platform DotNet
open DataLog (StopReasonEnum)

variable {M : Type} {chars : CharData} {gdb : Debugger M}

/-! ## The queue -/

/-- Nothing waits for it. -/
def TargetCommand.calm : TargetCommand → Bool
  | .deleteBreakpoint _ => true
  | .record => true
  | .recordStop => true
  | .free _ => true
  | _ => false

def deletes (commands : List TargetCommand) : List Int :=
  commands.filterMap fun
    | .deleteBreakpoint breakpointNum => some breakpointNum
    | _ => none

def Call.Awaits : Call → TargetCommand → Prop
  | .setSoftwareBreakpoint address _, .setBreakpoint place => place = .address address
  | .createSnapshot address, .setBreakpoint place => place = .address address
  | .resolveSymbol, .setBreakpoint _ => True
  | .stop restoring, .continue_ reverse => reverse = restoring
  | .stop _, .run => True
  | .pc _, .printPc => True
  | .writeMemory, .restore _ _ => True
  | .allocateMemory, .malloc _ => True
  | _, _ => False

/-- It waits for something that need not come. -/
def Call.unsure : Call → Bool
  | .stop _ => true
  | .allocateMemory => true
  | _ => false

/-- The command that the call waits for is the last one, and the only one waited for. -/
def Queued (commands : List TargetCommand) : Option Call → Prop
  | none => ∀ c ∈ commands, c.calm = true
  | some call => (∃ front command, commands = front ++ [command] ∧
      (∀ c ∈ front, c.calm = true) ∧ call.Awaits command) ∨
    commands = [] ∧ call.unsure = true

theorem Call.Awaits.not_calm {call : Call} {command : TargetCommand} (h : call.Awaits command) :
    command.calm = false := by
  cases call <;> cases command <;> first | rfl | cases h

theorem deletes_append (left right : List TargetCommand) :
    deletes (left ++ right) = deletes left ++ deletes right := by
  rw [deletes, List.filterMap_append]
  rfl

theorem deletes_awaited {call : Call} {command : TargetCommand} (h : call.Awaits command) :
    deletes [command] = [] := by
  cases command with
  | deleteBreakpoint => cases call <;> cases h
  | _ => rfl

/-- A command that is queued and not waited for. -/
theorem Queued.append {commands : List TargetCommand} {command : TargetCommand}
    (h : Queued commands none) (hcalm : command.calm = true) :
    Queued (commands ++ [command]) none := by
  intro c hc
  rcases List.mem_append.mp hc with hc | hc
  · exact h c hc
  · rw [List.mem_singleton.mp hc]
    exact hcalm

/-- A call that begins to wait. -/
theorem Queued.await {commands : List TargetCommand} {command : TargetCommand} {call : Call}
    (h : Queued commands none) (hawaits : call.Awaits command) :
    Queued (commands ++ [command]) (some call) :=
  .inl ⟨commands, command, rfl, h, hawaits⟩

/-- The next command is not waited for, or is the last one. -/
theorem Queued.next {command : TargetCommand} {rest : List TargetCommand} {call : Option Call}
    (h : Queued (command :: rest) call) :
    command.calm = true ∧ Queued rest call ∨
      rest = [] ∧ ∃ waiting, call = some waiting ∧ waiting.Awaits command := by
  cases call with
  | none => exact .inl (List.forall_mem_cons.mp h)
  | some waiting =>
      rcases h with ⟨front, last, heq, hfront, hawaits⟩ | ⟨heq, -⟩
      · cases front with
        | nil =>
            cases heq
            exact .inr ⟨rfl, waiting, rfl, hawaits⟩
        | cons c front =>
            cases heq
            obtain ⟨hc, hfront⟩ := List.forall_mem_cons.mp hfront
            exact .inl ⟨hc, .inl ⟨front, last, rfl, hfront, hawaits⟩⟩
      · cases heq

/-! ## Stops -/

/-- Where the program is, or 0. -/
def Target.address (t : Target M) : UInt64 := (t.now.map Moment.pc).getD 0

theorem Target.address_of_now {t : Target M} {moment : Moment M} (h : t.now = some moment) :
    t.address = moment.pc := by
  rw [Target.address, h]
  rfl

/-- What a stop names is where the program is. -/
structure Names (table : Breakpoints) (now : Option (Moment M)) (stop : GdbStop) : Prop where
  known : ∀ br, stop.breakpoint = some br →
    br ∈ table ∧ ∃ moment, now = some moment ∧ br.address = moment.pc
  reason : stop.breakpoint ≠ none → stop.stopReason = .breakpoint
  running : stop.stopReason = .breakpoint → now ≠ none

/-- The address is that of the program, and 0 when it has ended. A stop for a breakpoint
names one that is there, if the connector has one there. -/
structure Returned.Right (r : Returned M) : Prop where
  address : r.stop.address = (r.moment.map Moment.pc).getD 0
  names : Names r.breakpoints r.moment r.stop
  unknown : r.stop.stopReason = .breakpoint → r.stop.breakpoint = none →
    ∀ br ∈ r.breakpoints, br.address ≠ r.stop.address

theorem lookupBreakpointByAddress_some {table : Breakpoints} {address : UInt64} {br : GDBBreakpoint}
    (h : table.lookupBreakpointByAddress address = some br) : br ∈ table ∧ br.address = address :=
  ⟨List.mem_of_find?_eq_some h, by simpa using List.find?_some h⟩

theorem lookupBreakpointByAddress_none {table : Breakpoints} {address : UInt64}
    (h : table.lookupBreakpointByAddress address = none) : ∀ br ∈ table, br.address ≠ address := by
  intro br hbr
  simpa using List.find?_eq_none.mp h br hbr

/-- A breakpoint that gdb names. -/
theorem names_breakpoint {table : Breakpoints} {t : Target M} {num : Nat} {moment : Moment M}
    (h : InStep table t []) (hnow : t.now = some moment)
    (hmem : (num, moment.pc) ∈ t.breakpoints) (address : UInt64) :
    num < 2 ^ 31 ∧ ∃ br, table.lookupBreakpoint num = some br ∧
      Names table t.now ⟨.breakpoint, some br, address, 0⟩ := by
  obtain ⟨br, hbr, hlookup, hat⟩ := h.lookup hmem
  refine ⟨(h.bound _ hmem).trans_lt h.int, br, hlookup, ⟨?_, fun _ => rfl, ?_⟩⟩
  · rintro _ ⟨⟩
    exact ⟨hbr, moment, hnow, hat⟩
  · rw [hnow]
    simp

/-- What gdb can say of a stop, with the breakpoints in step. -/
theorem Target.Announces.stop {table : Breakpoints} {t : Target M}
    {announcement : Announcement chars} (h : InStep table t [])
    (hannounces : t.Announces announcement) :
    announcement.Fits ∧ ∀ stop, announcement.stop table = some stop →
      Names table t.now stop ∧ (stop.address = 0 ∨ stop.address = t.address) := by
  have hframe : ∀ (frame : Option (FrameLine chars)) (moment : Moment M), t.now = some moment →
      (∀ line ∈ frame, line.address.value = moment.pc) →
      (frame.map fun frame => frame.address.value).getD 0 = 0 ∨
        (frame.map fun frame => frame.address.value).getD 0 = t.address := by
    intro frame moment hnow hframe
    rw [t.address_of_now hnow]
    cases frame with
    | none => exact .inl rfl
    | some frame => exact .inr (hframe frame rfl)
  cases announcement with
  | breakpoint num address place =>
      obtain ⟨moment, hnow, hmem, haddress⟩ := hannounces
      obtain ⟨hint, br, hlookup, hnames⟩ := names_breakpoint h hnow hmem address.value
      refine ⟨hint, fun stop hstop => ?_⟩
      rw [Announcement.stop, hlookup] at hstop
      cases hstop
      exact ⟨hnames, .inr (haddress.trans (t.address_of_now hnow).symm)⟩
  | source line =>
      obtain ⟨moment, hnow, hmem⟩ := hannounces
      obtain ⟨hint, br, hlookup, hnames⟩ := names_breakpoint h hnow hmem 0
      refine ⟨hint, fun stop hstop => ?_⟩
      rw [Announcement.stop, hlookup] at hstop
      cases hstop
      exact ⟨hnames, .inl rfl⟩
  | signal known frame =>
      obtain ⟨moment, hnow, hlines⟩ := hannounces
      refine ⟨trivial, fun stop hstop => ?_⟩
      cases hstop
      exact ⟨⟨fun br hbr => (by cases hbr), fun hne => absurd rfl hne,
        fun hreason => (by cases hreason)⟩,
        hframe frame moment hnow hlines⟩
  | noHistory frame =>
      obtain ⟨moment, hnow, hlines⟩ := hannounces
      refine ⟨trivial, fun stop hstop => ?_⟩
      cases hstop
      refine ⟨⟨fun br hbr => ?_, fun _ => rfl, fun _ => by rw [hnow]; simp⟩,
        hframe frame moment hnow hlines⟩
      cases frame with
      | none => cases hbr
      | some frame =>
          obtain ⟨hmem, hat⟩ := lookupBreakpointByAddress_some hbr
          exact ⟨hmem, moment, hnow, hat.trans (hlines frame rfl)⟩
  | exitedWithCode exit =>
      refine ⟨trivial, fun stop hstop => ?_⟩
      cases hstop
      exact ⟨⟨fun br hbr => (by cases hbr), fun hne => absurd rfl hne,
        fun hreason => (by cases hreason)⟩,
        .inl rfl⟩
  | exited => exact ⟨trivial, fun stop hstop => (by cases hstop)⟩
  | inferiorExited num pid => exact ⟨trivial, fun stop hstop => (by cases hstop)⟩
  | inferiorExitedWithCode num pid exit => exact ⟨trivial, fun stop hstop => (by cases hstop)⟩
  | terminated ending => exact ⟨trivial, fun stop hstop => (by cases hstop)⟩

/-- What is read of a stop: nothing, or where the program is. -/
theorem Target.Reports.received (hchars : chars.Ascii) {table : Breakpoints} {t : Target M}
    (h : InStep table t []) {lines : List (List Char)} (hreports : t.Reports chars lines) :
    receiveOutput chars table [] lines = .ok ([], []) ∨
      (¬∀ line ∈ lines, Unclaimed chars line) ∧
      ∃ stop, receiveOutput chars table [] lines = .ok ([], [stop]) ∧ Names table t.now stop ∧
        (stop.address = 0 ∨ stop.address = t.address) := by
  by_cases hnothing : ∀ line ∈ lines, Unclaimed chars line
  · exact .inl (receiveOutput_all_unclaimed hnothing)
  · obtain ⟨announcement, before, after, rfl, hbefore, hafter, hannounces⟩ :=
      hreports.resolve_left hnothing
    obtain ⟨hfits, hstop⟩ := hannounces.stop h
    have hreceive : receiveOutput chars table [] (before ++ (announcement.lines ++ after)) = _ :=
      (receiveOutput_unclaimed hbefore _).trans
        (receiveOutput_announcement hchars table announcement hfits hafter)
    cases hsaid : announcement.stop table with
    | none => exact .inl (by rw [hreceive, hsaid]; rfl)
    | some stop =>
        obtain ⟨hnames, haddress⟩ := hstop stop hsaid
        exact .inr ⟨hnothing, stop, by rw [hreceive, hsaid]; rfl, hnames, haddress⟩

end InMemoryFuzzing.Gdb

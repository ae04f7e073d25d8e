import InMemoryFuzzing.Base.TSys
import InMemoryFuzzing.Gdb.Debugger

/-!
# Breakpoints, stops and snapshots

The thread that fuzzes calls `GDBConnector`, which queues commands and waits for what
the response handlers make of the answers; gdb executes the commands in order, at any
time. What it writes when the program stops goes through the permanent handlers.

`ContinueRH` and `RunRH` call back with true only, so `DebugContinue` never comes to its
exception. That `RunRH` answers the question of gdb whether to start a program anew is left
out: `run` is only queued when there is none.
-/

namespace InMemoryFuzzing.Gdb

open Base Platform DotNet
open DataLog (StopReasonEnum)

/-- What the fuzzing thread waits for. -/
inductive Call
  | setSoftwareBreakpoint (address : UInt64) (identifier : String)
  /-- The constructor of `GDBSnapshot`. -/
  | createSnapshot (address : UInt64)
  | resolveSymbol
  /-- A stop, in `DebugContinue`, which may be that of `Restore`. -/
  | stop (restoring : Bool)
  /-- The value of `$pc`, in `DebugContinue`. -/
  | pc (restoring : Bool)
  | writeMemory
  | allocateMemory
  deriving DecidableEq, Repr

/-- What `DebugContinue` has returned, where the program was, and `_breakpoints`. -/
structure Returned (M : Type) where
  stop : GdbStop
  moment : Option (Moment M)
  breakpoints : Breakpoints

/-- `GDBConnector`, with gdb. -/
structure DebugSession (M : Type) (gdb : Debugger M) where
  breakpoints : Breakpoints
  lastDebuggerStop : Option GdbStop
  /-- The snapshot, if there is one, and its `_myBreakpoint`, which is null if gdb has refused it. -/
  snapshot : Option (Option GDBBreakpoint)
  /-- What `AllocateMemory` has returned last. -/
  allocatedMemory : Option UInt64
  commands : List TargetCommand
  call : Option Call
  /-- The exception that has left a call, or the thread that reads. -/
  fault : Option NetException
  target : gdb.State
  /-- The stops that `DebugContinue` has returned. -/
  returned : List (Returned M)

inductive DebugAct (M : Type) (gdb : Debugger M)
  | setSoftwareBreakpoint (address : UInt64) (identifier : String)
  | resolveSymbolToBreakpointAddress (symbol : String)
  /-- `Delete` of a breakpoint that is not the one of the snapshot. -/
  | delete (br : GDBBreakpoint)
  | createSnapshot
  | destroySnapshot
  | debugContinue
  | restore
  /-- Without a snapshot. -/
  | writeMemory (data : List UInt8) (address : UInt64)
  | allocateMemory (size : UInt64)
  | freeMemory (address : UInt64)
  /-- gdb executes the next command. -/
  | execute (choice : gdb.Choice)

namespace DebugSession

variable {M : Type} {gdb : Debugger M}

def queue (command : TargetCommand) (s : DebugSession M gdb) : DebugSession M gdb :=
  { s with commands := s.commands ++ [command] }

/-- A call that waits. -/
def wait (command : TargetCommand) (call : Call) (s : DebugSession M gdb) : DebugSession M gdb :=
  { s.queue command with call := some call }

/-- A call that has raised. -/
def raise (e : NetException) (s : DebugSession M gdb) : DebugSession M gdb :=
  { s with call := none, fault := some e }

/-- The rest of the constructor of `GDBSnapshot`. -/
def snapshotMade (myBreakpoint : Option GDBBreakpoint) (s : DebugSession M gdb) :
    DebugSession M gdb :=
  { s.queue .record with snapshot := some myBreakpoint, call := none }

/-- `_breakpoints.Add`, and behind it the rest of the call. -/
def add (br : GDBBreakpoint) (snapshot : Bool) (s : DebugSession M gdb) : DebugSession M gdb :=
  match s.breakpoints.lookupBreakpoint br.breakpointNum with
  | some _ => s.raise .duplicateKey
  | none =>
      let s := { s with breakpoints := s.breakpoints ++ [br], call := none }
      if snapshot then s.snapshotMade (some br) else s

/-- `GDBBreakpoint.Delete`. -/
def deleteBreakpoint (br : GDBBreakpoint) (s : DebugSession M gdb) : DebugSession M gdb :=
  { s.queue (.deleteBreakpoint br.breakpointNum) with
    breakpoints := s.breakpoints.filter fun other => other.breakpointNum ≠ br.breakpointNum }

/-- The callback of a `break`. -/
def breakpointSet (found : Option (Nat × UInt64)) (s : DebugSession M gdb) : DebugSession M gdb :=
  match s.call, found with
  | some (.setSoftwareBreakpoint _ _), none => { s with call := none }
  | some (.setSoftwareBreakpoint address identifier), some (breakpointNum, _) =>
      s.add ⟨breakpointNum, address, identifier⟩ false
  | some (.createSnapshot _), none => s.snapshotMade none
  | some (.createSnapshot address), some (breakpointNum, _) =>
      s.add ⟨breakpointNum, address, "_snapshot"⟩ true
  | some .resolveSymbol, none => { s with call := none }
  | some .resolveSymbol, some (breakpointNum, _) =>
      { s.queue (.deleteBreakpoint breakpointNum) with call := none }
  | _, _ => s

/-- The condition of the loop of `Restore`: whether it goes on, or null is dereferenced. -/
def goesOn (stop : GdbStop) (s : DebugSession M gdb) : Option Bool :=
  match stop.breakpoint, s.snapshot with
  | some br, some (some myBreakpoint) => some (br.address ≠ myBreakpoint.address)
  | _, _ => none

/-- The end of a round of the loop of `Restore`. -/
def restored (stop : GdbStop) (s : DebugSession M gdb) : DebugSession M gdb :=
  match s.goesOn stop with
  | none => s.raise .nullReference
  | some false => { s with call := none }
  | some true => s.wait (.continue_ true) (.stop true)

/-- The end of `DebugContinue`. -/
def continued (restoring : Bool) (stop : GdbStop) (s : DebugSession M gdb) : DebugSession M gdb :=
  let stop :=
    if stop.stopReason = .breakpoint ∧ stop.breakpoint = none then
      { stop with breakpoint := s.breakpoints.lookupBreakpointByAddress stop.address }
    else stop
  let s := { s with
    lastDebuggerStop := some stop
    returned := s.returned ++ [(⟨stop, (gdb.view s.target).now, s.breakpoints⟩ : Returned M)] }
  if restoring then s.restored stop else { s with call := none }

/-- `GdbStopped`, and `DebugContinue` behind it. -/
def gdbStopped (stop : GdbStop) (s : DebugSession M gdb) : DebugSession M gdb :=
  let s := { s with lastDebuggerStop := some stop }
  match s.call with
  | some (.stop restoring) =>
      if stop.address = 0 then s.wait .printPc (.pc restoring) else s.continued restoring stop
  | _ => s

/-- The callback of a `print`. -/
def printed (value : Option UInt64) (s : DebugSession M gdb) : DebugSession M gdb :=
  match s.call, s.lastDebuggerStop with
  | some (.pc restoring), some stop =>
      s.continued restoring { stop with address := value.getD stop.address }
  | some .allocateMemory, _ =>
      { s with allocatedMemory := value.filter fun address => address ≠ 0, call := none }
  | _, _ => s

/-- The lines of a program that has run are read. -/
def received (chars : CharData) (lines : List (List Char)) (s : DebugSession M gdb) :
    DebugSession M gdb :=
  match receiveOutput chars s.breakpoints [] lines with
  | .error e => s.raise e
  | .ok (_, stops) => stops.foldl (fun s stop => s.gdbStopped stop) s

/-- The answer to a command is handled. -/
def answered (chars : CharData) (command : TargetCommand) (answer : Answer)
    (s : DebugSession M gdb) : DebugSession M gdb :=
  match command, answer with
  | .setBreakpoint _, .breakpoint found => s.breakpointSet found
  | .continue_ _, .notRun => s.queue .run
  | .continue_ _, .output lines => s.received chars lines
  | .run, .output lines => s.received chars lines
  | .printPc, .value value => s.printed value
  | .malloc _, .value value => s.printed value
  -- the event of `WriteMemory` is set when the command is finished
  | .restore _ _, _ => { s with call := none }
  | _, _ => s

/-- gdb executes a command. -/
def execute (chars : CharData) (choice : gdb.Choice) (command : TargetCommand)
    (s : DebugSession M gdb) : Option (DebugSession M gdb) :=
  (gdb.execute s.target choice command).map fun (answer, target) =>
    { s with target }.answered chars command answer

/-- A call of the fuzzing thread. -/
def begin (s : DebugSession M gdb) : DebugAct M gdb → Option (DebugSession M gdb)
  | .setSoftwareBreakpoint address identifier =>
      some (s.wait (.setBreakpoint (.address address)) (.setSoftwareBreakpoint address identifier))
  | .resolveSymbolToBreakpointAddress symbol =>
      some (s.wait (.setBreakpoint (.symbol symbol)) .resolveSymbol)
  | .delete br =>
      if br ∈ s.breakpoints ∧ s.snapshot ≠ some (some br) then some (s.deleteBreakpoint br) else none
  | .createSnapshot =>
      match s.snapshot, s.lastDebuggerStop with
      | some _, _ => none
      | none, none => some (s.raise (.argument "No last stop address found"))
      | none, some stop =>
          if stop.address = 0 then
            some (s.raise (.argument "Last stop does not provide address"))
          else
            some (s.wait (.setBreakpoint (.address stop.address)) (.createSnapshot stop.address))
  | .destroySnapshot =>
      s.snapshot.map fun
        | none => s.raise .nullReference
        | some br => { (s.deleteBreakpoint br).queue .recordStop with snapshot := none }
  | .debugContinue => some (s.wait (.continue_ false) (.stop false))
  | .restore => s.snapshot.map fun _ => s.wait (.continue_ true) (.stop true)
  | .writeMemory data address =>
      if s.snapshot = none then some (s.wait (.restore data address) .writeMemory) else none
  | .allocateMemory size =>
      if s.snapshot = none then some (s.wait (.malloc size) .allocateMemory) else none
  | .freeMemory address => if s.snapshot = none then some (s.queue (.free address)) else none
  | .execute _ => none

/-- A call begins when the one before has returned; gdb goes on at any time. -/
def step (chars : CharData) (s : DebugSession M gdb) : DebugAct M gdb → Option (DebugSession M gdb)
  | .execute choice =>
      match s.commands with
      | [] => none
      | command :: rest => { s with commands := rest }.execute chars choice command
  | act => if s.call = none ∧ s.fault = none then s.begin act else none

/-- Connected. -/
def start (target : gdb.State) : DebugSession M gdb :=
  ⟨[], none, none, none, [], none, none, target, []⟩

end DebugSession

/-- All runs of the connector and gdb from a state of gdb. -/
def debugSystem {M : Type} (chars : CharData) (gdb : Debugger M) (target : gdb.State) :
    TSys (DebugSession M gdb) (DebugAct M gdb) where
  init s := s = .start target
  step := DebugSession.step chars

end InMemoryFuzzing.Gdb

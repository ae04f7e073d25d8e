import InMemoryFuzzing.Fuzz.InMemory
import InMemoryFuzzing.Gdb.DebugSession

/-!
# Rounds of in-memory fuzzing over gdb

`FuzzController.Fuzz` with in-memory locations that are triggered at the start of a round, on
top of the connector and gdb. Which of them are triggered, and what their data generators
produce, is left open; so is what `FuzzTarget.Address` is each time, which need not be an
address at all. The loggers only read, and are left out.
-/

namespace InMemoryFuzzing.Gdb

open Base Platform DotNet
open DataLog (StopReasonEnum)
open Fuzz (FuzzTech)

/-! ## What is fuzzed -/

/-- `InMemoryFuzzLocation`, with `FuzzTarget.Size`. -/
structure MemoryLocation where
  tech : FuzzTech
  size : Nat
  deriving DecidableEq, Repr

/-- The addresses of the two breakpoints, and the locations. -/
structure FuzzDescription (L : Type) where
  snapshotBreakpoint : UInt64
  restoreBreakpoint : UInt64
  fuzzLocation : L → MemoryLocation

/-- `realAddressBytes`. -/
def realAddressBytes (address : UInt64) (size : Nat) : List UInt8 :=
  let addressBytes := getBytesUInt64 address
  if addressBytes.length ≠ size then
    addressBytes.take size ++ List.replicate (size - addressBytes.length) 0
  else addressBytes

/-! ## The controller -/

/-- Where the loop is. -/
inductive FuzzPhase (L : Type)
  /-- At its beginning, where a snapshot may have to be made. -/
  | checking
  /-- Behind that, where it may have to be restored. -/
  | comparing
  /-- In `RestoreAndFuzz`: the snapshot is restored, then the locations are triggered. -/
  | triggering
  /-- In `SingleValueFuzzDescription.Run`, behind `Destroy`. -/
  | writing (data : List UInt8) (target : UInt64)
  /-- In `PointerValueFuzzDescription.Run`: behind `Destroy`, in `AllocateMemory`, and behind the
  first `WriteMemory`. -/
  | freeing (fuzzLocation : L) (data : List UInt8)
  | allocating (fuzzLocation : L) (data : List UInt8)
  | linking (fuzzLocation : L) (address : UInt64)
  /-- The last thing that both do. -/
  | recreating

/-- A command that has changed the memory, with its answer, and the program before and after. -/
structure Change (M : Type) where
  command : TargetCommand
  answer : Answer
  before : Option (Moment M)
  after : Option (Moment M)

structure FuzzRun (L M : Type) (gdb : Debugger M) where
  session : DebugSession M gdb
  phase : FuzzPhase L
  /-- `_currentAllocatedMemory` of the techniques. -/
  currentAllocatedMemory : L → Option UInt64
  /-- The exception that has left the loop, if it is not one of the connector. -/
  fault : Option NetException
  /-- What gdb has executed of the commands of the techniques. -/
  changes : List (Change M)

inductive FuzzAct (L M : Type) (gdb : Debugger M)
  /-- gdb executes the next command. -/
  | execute (choice : gdb.Choice)
  /-- The controller goes on. -/
  | next
  /-- A location is triggered, with the data of its generator, and what `FuzzTarget.Address.Value`
  is, or raises, if the technique begins with that. -/
  | run (fuzzLocation : L) (data : List UInt8) (target : Except NetException UInt64)
  /-- It is looked at behind the data. -/
  | link (target : Except NetException UInt64)
  /-- No other location is triggered. -/
  | debugContinue

namespace FuzzRun

variable {L M : Type} {gdb : Debugger M} (chars : CharData) (description : FuzzDescription L)

def raise (e : NetException) (s : FuzzRun L M gdb) : FuzzRun L M gdb := { s with fault := some e }

/-- A call of the connector. -/
def call (act : DebugAct M gdb) (phase : FuzzPhase L) (s : FuzzRun L M gdb) :
    Option (FuzzRun L M gdb) :=
  (s.session.step chars act).map fun session => { s with session, phase }

variable [DecidableEq L]

def setMemory (fuzzLocation : L) (memory : Option UInt64) (s : FuzzRun L M gdb) :
    FuzzRun L M gdb :=
  { s with currentAllocatedMemory := Function.update s.currentAllocatedMemory fuzzLocation memory }

/-- `Run` of a technique, up to `Destroy`. -/
def run (fuzzLocation : L) (data : List UInt8) (target : Except NetException UInt64)
    (s : FuzzRun L M gdb) : Option (FuzzRun L M gdb) :=
  match (description.fuzzLocation fuzzLocation).tech, target with
  | .singleValue, .error e => some (s.raise e)
  | .singleValue, .ok address => s.call chars .destroySnapshot (.writing data address)
  | .pointerValue, _ => s.call chars .destroySnapshot (.freeing fuzzLocation data)

/-- The pointer is set to the memory. -/
def link (fuzzLocation : L) (address : UInt64) (target : Except NetException UInt64)
    (s : FuzzRun L M gdb) : Option (FuzzRun L M gdb) :=
  match target with
  | .error e => some (s.raise e)
  | .ok target => s.call chars (.writeMemory
      (realAddressBytes address (description.fuzzLocation fuzzLocation).size) target) .recreating

/-- There is no snapshot yet, and the program is where it has to be made. -/
def reached (s : FuzzRun L M gdb) : Bool :=
  s.session.snapshot.isNone && s.session.lastDebuggerStop.any fun stop =>
    stop.stopReason = .breakpoint ∧ stop.address = description.snapshotBreakpoint

/-- What the controller does next. -/
def next (s : FuzzRun L M gdb) : Option (FuzzRun L M gdb) :=
  match s.phase with
  | .checking =>
      if s.reached description then s.call chars .createSnapshot .comparing
      else some { s with phase := .comparing }
  | .comparing =>
      match s.session.snapshot, s.session.lastDebuggerStop with
      | none, _ => s.call chars .debugContinue .checking
      | some _, none => some (s.raise .nullReference)
      | some _, some stop =>
          if stop.stopReason ≠ .breakpoint ∨ stop.address = description.restoreBreakpoint then
            s.call chars .restore .triggering
          else s.call chars .debugContinue .checking
  | .triggering => none
  | .writing data target => s.call chars (.writeMemory data target) .recreating
  | .freeing fuzzLocation data =>
      match s.currentAllocatedMemory fuzzLocation with
      | none =>
          s.call chars (.allocateMemory (UInt64.ofNat data.length)) (.allocating fuzzLocation data)
      | some address =>
          (s.call chars (.freeMemory address) (.freeing fuzzLocation data)).map
            fun s => s.setMemory fuzzLocation none
  | .allocating fuzzLocation data =>
      match s.session.allocatedMemory with
      | none => some (s.raise .nullReference)
      | some address =>
          (s.call chars (.writeMemory data address) (.linking fuzzLocation address)).map
            fun s => s.setMemory fuzzLocation (some address)
  | .linking _ _ => none
  | .recreating => s.call chars .createSnapshot .triggering

/-- What the techniques have done when gdb has executed the next command. -/
def changed (choice : gdb.Choice) (s : FuzzRun L M gdb) : List (Change M) :=
  match s.session.commands with
  | [] => s.changes
  | command :: _ =>
      if command.changes then
        s.changes ++ (gdb.execute s.session.target choice command).toList.map fun (answer, target) =>
          ⟨command, answer, (gdb.view s.session.target).now, (gdb.view target).now⟩
      else s.changes

/-- The controller goes on when its call has returned, and gdb at any time. -/
def step (s : FuzzRun L M gdb) : FuzzAct L M gdb → Option (FuzzRun L M gdb)
  | .execute choice => (s.session.step chars (.execute choice)).map fun session =>
      { s with session, changes := s.changed choice }
  | act =>
      if s.session.call = none ∧ s.session.fault = none ∧ s.fault = none then
        match act, s.phase with
        | .next, _ => s.next chars description
        | .run fuzzLocation data target, .triggering =>
            s.run chars description fuzzLocation data target
        | .debugContinue, .triggering => s.call chars .debugContinue .checking
        | .link target, .linking fuzzLocation address =>
            s.link chars description fuzzLocation address target
        | _, _ => none
      else none

/-- At the beginning of the loop. -/
def start (session : DebugSession M gdb) : FuzzRun L M gdb :=
  ⟨session, .checking, fun _ => none, none, []⟩

end FuzzRun

/-- All runs of the loop from a state of the connector. -/
def fuzzSystem {L M : Type} [DecidableEq L] {gdb : Debugger M} (chars : CharData)
    (description : FuzzDescription L) (session : DebugSession M gdb) :
    TSys (FuzzRun L M gdb) (FuzzAct L M gdb) where
  init s := s = .start session
  step := FuzzRun.step chars description

end InMemoryFuzzing.Gdb

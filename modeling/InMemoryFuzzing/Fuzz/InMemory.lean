import InMemoryFuzzing.Fuzz.Location
import Mathlib.Logic.Function.Basic

/-!
# In-memory locations on the gdb connector

`GDBSnapshot`, the two techniques and `InMemoryFuzzLocation`, as an environment of the
controller. Of the connector there is the address of its last stop, which is where the
target is; what it does to the memory of the target is left out. The stops on the way back
to a snapshot and the answers of gdb are given.

An exception leaves `Fuzz`, and a call that does not return never comes back to it: from
such a `Fault` on nothing happens any more.
-/

namespace InMemoryFuzzing.Fuzz

open Platform DotNet DataLog

/-! ## The connector -/

/-- A stop on the way back: its address, and that of its breakpoint, if it is at one that
the connector knows. gdb stops for a breakpoint where the breakpoint is. -/
structure ReverseStop where
  address : UInt64
  breakpoint : Option UInt64
  at_breakpoint : ∀ b, breakpoint = some b → address = b

/-- What gdb answers: whether the `n`-th breakpoint for a snapshot is set, and the exception
that comes of the `n`-th access of a technique to the memory, if one does. -/
structure Gdb where
  setsBreakpoint : Nat → Bool
  accessMemory : Nat → Option NetException

/-- An exception, or a call that does not return. -/
inductive Fault
  | raised (e : NetException)
  | waits

/-- `GDBConnector`: the address of `LastDebuggerStop`, the stops that come in reverse, and
how often a breakpoint has been set and the memory accessed. -/
structure Connector where
  lastDebuggerStop : Option UInt64
  reverseStops : List ReverseStop
  breakpoints : Nat
  accesses : Nat

/-- `GDBSnapshot`: the address of `_myBreakpoint`, which is null if it could not be set. -/
structure GDBSnapshot where
  myBreakpoint : Option UInt64
  deriving DecidableEq, Repr

namespace Connector

variable (gdb : Gdb)

/-- `CreateSnapshot`, with the constructor of `GDBSnapshot`. -/
def createSnapshot (c : Connector) : Except Fault (GDBSnapshot × Connector) :=
  match c.lastDebuggerStop with
  | none => .error (.raised (.argument "No last stop address found"))
  | some address =>
      if address = 0 then .error (.raised (.argument "Last stop does not provide address"))
      else .ok (⟨if gdb.setsBreakpoint c.breakpoints then some address else none⟩,
        { c with breakpoints := c.breakpoints + 1 })

/-- The memory is read and written. -/
def accessMemory (c : Connector) : Except Fault Connector :=
  match gdb.accessMemory c.accesses with
  | some e => .error (.raised e)
  | none => .ok { c with accesses := c.accesses + 1 }

end Connector

namespace GDBSnapshot

/-- The loop of `Restore`. -/
def restoreLoop (s : GDBSnapshot) (c : Connector) : List ReverseStop → Except Fault Connector
  -- no further stop: the loop waits for the connector
  | [] => .error .waits
  | stop :: rest =>
      match stop.breakpoint, s.myBreakpoint with
      | some b, some myBreakpoint =>
          if b = myBreakpoint then
            .ok { c with lastDebuggerStop := some stop.address, reverseStops := rest }
          else restoreLoop s c rest
      | _, _ => .error (.raised .nullReference)

/-- `Restore`. -/
def restore (s : GDBSnapshot) (c : Connector) : Except Fault Connector :=
  s.restoreLoop c c.reverseStops

/-- `Destroy`. -/
def destroy (s : GDBSnapshot) : Except Fault Unit :=
  match s.myBreakpoint with
  | none => .error (.raised .nullReference)
  | some _ => .ok ()

end GDBSnapshot

/-! ## The techniques -/

/-- What both techniques do to the snapshot: it is destroyed, the memory is written, and a
new one is made where the target is. -/
def recreateSnapshot (gdb : Gdb) (snapshot : GDBSnapshot) (c : Connector) :
    Except Fault (GDBSnapshot × Connector) := do
  snapshot.destroy
  let c ← c.accessMemory gdb
  c.createSnapshot gdb

/-- `IFuzzTech`. -/
inductive FuzzTech
  | singleValue
  | pointerValue
  deriving DecidableEq, Repr

/-- `Run` of `SingleValueFuzzDescription`, with the `WriteMemory` that takes a snapshot. -/
def singleValueRun (gdb : Gdb) := recreateSnapshot gdb

/-- `Run` of `PointerValueFuzzDescription`. -/
def pointerValueRun (gdb : Gdb) := recreateSnapshot gdb

def FuzzTech.run (gdb : Gdb) : FuzzTech → GDBSnapshot → Connector →
    Except Fault (GDBSnapshot × Connector)
  | .singleValue => singleValueRun gdb
  | .pointerValue => pointerValueRun gdb

/-! ## The environment -/

/-- `InMemoryFuzzLocation`. -/
structure InMemoryFuzzLocation (G : Type) where
  base : BaseFuzzLocation G
  tech : FuzzTech

/-- A technique is invoked: where the target is stopped, and the address of the snapshot. -/
structure TechInvocation where
  target : Option UInt64
  snapshot : Option UInt64
  deriving DecidableEq, Repr

/-- The locations, the connector, the fault that has ended the session, and the invocations
so far. -/
structure InMemoryWorld (L G : Type) where
  locations : L → InMemoryFuzzLocation G
  connector : Connector
  fault : Option Fault
  invocations : List TechInvocation

namespace InMemoryWorld

variable {L G : Type} [DecidableEq L] (gdb : Gdb)

def setBase (l : L) (base : BaseFuzzLocation G) (w : InMemoryWorld L G) : InMemoryWorld L G :=
  { w with locations := Function.update w.locations l { w.locations l with base := base } }

/-- `Run` of the location: the base class, then its technique. -/
def run (l : L) (snapshot : GDBSnapshot) (w : InMemoryWorld L G) : GDBSnapshot × InMemoryWorld L G :=
  let w := w.setBase l (w.locations l).base.run
  let invocation : TechInvocation := ⟨w.connector.lastDebuggerStop, snapshot.myBreakpoint⟩
  -- recorded when the technique is called, whatever becomes of it
  let w := { w with invocations := w.invocations ++ [invocation] }
  match (w.locations l).tech.run gdb snapshot w.connector with
  | .ok (snapshot, connector) => (snapshot, { w with connector := connector })
  | .error fault => (snapshot, { w with fault := some fault })

/-- `CreateSnapshot` for the controller. -/
def createSnapshot (w : InMemoryWorld L G) : GDBSnapshot × InMemoryWorld L G :=
  match w.connector.createSnapshot gdb with
  | .ok (snapshot, connector) => (snapshot, { w with connector := connector })
  | .error fault => (⟨none⟩, { w with fault := some fault })

/-- `Restore` for the controller. -/
def restore (snapshot : GDBSnapshot) (w : InMemoryWorld L G) : InMemoryWorld L G :=
  match snapshot.restore w.connector with
  | .ok connector => { w with connector := connector }
  | .error fault => { w with fault := some fault }

/-- The in-memory locations and the gdb connector. The data loggers do not matter here. -/
def environment : Environment (InMemoryWorld L G) GDBSnapshot L where
  isFinished l w := if w.fault.isSome then (false, w) else ((w.locations l).base.isFinished, w)
  isTriggered l triggerType w :=
    if w.fault.isSome then (false, w)
    else
      let (triggered, base) := (w.locations l).base.isTriggered triggerType none
      (triggered, w.setBase l base)
  run l snapshot w := if w.fault.isSome then (snapshot, w) else w.run gdb l snapshot
  nextFuzzRun l w :=
    if w.fault.isSome then w else w.setBase l (w.locations l).base.nextFuzzRun
  createSnapshot w := if w.fault.isSome then (⟨none⟩, w) else w.createSnapshot gdb
  restore snapshot w := if w.fault.isSome then w else w.restore snapshot
  debugContinue stop w :=
    if w.fault.isSome then w
    else { w with connector := { w.connector with lastDebuggerStop := some stop.address } }
  -- the loggers neither move the target nor touch a snapshot
  finishedFuzzRun _ w := w
  startingFuzzRun _ w := w

end InMemoryWorld

end InMemoryFuzzing.Fuzz

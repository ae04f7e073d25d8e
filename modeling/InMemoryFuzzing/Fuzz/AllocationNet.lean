import InMemoryFuzzing.Analyzers.HeapLog
import InMemoryFuzzing.Fuzz.PipeLines
import InMemoryFuzzing.RemoteControl.PipeLogic

/-!
# From an allocation to the log of its run

The preloaded library prints a call into a named pipe, piece by piece; a thread of the
server takes what is in the pipe in chunks of at most 1000 bytes and sends them; the client
raises `PipeData`, and the `RemotePipeLogger` writes what it is handed into the file that the
controller has had it open. None of them waits for another one.

The connection is the pipe protocol with all its interleavings (`pipeSystem`), with any other
pipes on it.
-/

namespace InMemoryFuzzing.Fuzz

open Base Platform DotNet DataLog Analyzers RemoteControl

/-- The arguments of `PipeData`, as the logger gets them. -/
def pipeData? : PipeEvent → Option (PipeLogEvent UInt8)
  | .data pipeId pipeName data index offset =>
      some (.pipeData ⟨pipeId, pipeName, data, index, offset⟩)
  | _ => none

/-- The events the client has raised. -/
def clientEvents (s : PipeNet) : List PipeEvent :=
  match s.client with
  | .ok session => session.world.events
  | .error crash => crash.session.world.events

/-- The `PipeData` events of a step. -/
def raisedData (s s' : PipeNet) : List (PipeLogEvent UInt8) :=
  ((clientEvents s').drop (clientEvents s).length).filterMap pipeData?

/-- What a step takes out of the pipe with this name. -/
def takenFrom (pipe : List UInt8) (s : PipeNet) : NetAct → List UInt8
  | .thread k (.read chunk) =>
      match s.server.threads[k]? with
      | some t => if t.pipeName = pipe then chunk else []
      | none => []
  | _ => []

structure AllocationNet where
  connection : PipeNet
  /-- What `dprintf` has still to write of the text of the last call. -/
  unwritten : List UInt8
  /-- What is in the pipe. -/
  fifo : List UInt8
  log : Except NetException (PipeLog UInt8)

inductive AllocationAct
  | connection (act : NetAct)
  /-- The program calls one of the preloaded functions. -/
  | allocate (c : LoggedCall)
  /-- `dprintf` writes some bytes. -/
  | write (n : Nat)
  /-- The controller calls the logger. -/
  | logger (c : LoggerCall)

namespace AllocationNet

/-- A step of the connection; the logger handles `PipeData` before the client goes on. -/
def stepConnection (passed : List Nat → Nat) (pipe : List UInt8) (s : AllocationNet) (act : NetAct) :
    Option AllocationNet :=
  let taken := takenFrom pipe s.connection act
  if taken <+: s.fifo then
    (s.connection.step act).map fun connection =>
      { s with
        connection, fifo := s.fifo.drop taken.length,
        log := s.log.bind fun log =>
          log.run passed RemotePipeLogger.asciiText (raisedData s.connection connection) }
  else none

/-- One step, where `pipe` is the pipe in `LOG_MEM_PIPE`. -/
def step (passed : List Nat → Nat) (pipe : List UInt8) (s : AllocationNet) :
    AllocationAct → Option AllocationNet
  | .connection act => s.stepConnection passed pipe act
  | .allocate c =>
      if s.unwritten = [] then some { s with unwritten := CLib.textBytes c.text } else none
  | .write n =>
      some { s with unwritten := s.unwritten.drop n, fifo := s.fifo ++ s.unwritten.take n }
  | .logger c =>
      some { s with log := s.log.bind fun log => log.step passed RemotePipeLogger.asciiText (.call c) }

/-- Before the first request, with a logger for these pipes. -/
def start (n0 : Int) (logPipeNames : List String) (path : String) (files : Files UInt8) :
    AllocationNet where
  connection := .start n0
  unwritten := []
  fifo := []
  log := .ok (PipeLog.initial logPipeNames path files)

end AllocationNet

/-- All interleavings, on a server whose `next_pipe_id` is `n0`. -/
def allocationSystem (n0 : Int) (logPipeNames : List String) (path : String)
    (files : Files UInt8) (passed : List Nat → Nat) (pipe : List UInt8) :
    TSys AllocationNet AllocationAct where
  init s := s = .start n0 logPipeNames path files
  step := AllocationNet.step passed pipe

/-- The call of the program. -/
def AllocationAct.allocated? : AllocationAct → Option LoggedCall
  | .allocate c => some c
  | _ => none

/-- The call of the controller. -/
def AllocationAct.logger? : AllocationAct → Option LoggerCall
  | .logger c => some c
  | _ => none

/-- The calls of the program. -/
def allocatedIn (acts : List AllocationAct) : List LoggedCall :=
  acts.filterMap AllocationAct.allocated?

/-- The file that the act creates. -/
def AllocationAct.creates? (path : String) (act : AllocationAct) : Option String :=
  act.logger?.bind fun c => (PipeLogEvent.call c : PipeLogEvent UInt8).creates? path

/-- Nothing of what the library has printed is still on its way: it is written, has been
taken out of the pipe, and has arrived at the client. -/
structure Settled (k : Nat) (s : AllocationNet) : Prop where
  unwritten : s.unwritten = []
  fifo : s.fifo = []
  inHand : ∀ t, s.connection.server.all[k]? = some t → t.phase.inHand = []
  incoming : ∀ t, s.connection.server.all[k]? = some t →
    ∀ f ∈ s.connection.incoming, f.pipeId = t.pipeId → f.chunk? = none

/-- Of the requests issued, the one with index `k` is for the pipe, and it is the only one that is
logged or is for the pipe; there are ids for all of them, and each fits into a packet. -/
structure PipeOfAllocations (logPipeNames : List String) (pipe : List UInt8) (k : Nat)
    (issued : List String) : Prop where
  few : issued.length < 65536
  short : ∀ pipeName ∈ issued, (asciiGetBytes pipeName).length ≤ 9990
  index : k < 65536
  logged : ∀ pipeName, issued[k]? = some pipeName →
    RemotePipeLogger.Logs logPipeNames pipeName ∧ nameOnServer (asciiGetBytes pipeName) = pipe
  alone : ∀ j pipeName, issued[j]? = some pipeName →
    RemotePipeLogger.Logs logPipeNames pipeName ∨ nameOnServer (asciiGetBytes pipeName) = pipe → j = k

end InMemoryFuzzing.Fuzz

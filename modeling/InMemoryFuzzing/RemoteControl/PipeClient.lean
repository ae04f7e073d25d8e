import InMemoryFuzzing.RemoteControl.ClientProtocol
import InMemoryFuzzing.RemoteControl.PipeServer

/-!
# Pipes on the client

The handlers `RemoteControlProtocol` registers for `RPIR`, `RPIP` and `RPIC`.
A request is a name in the queue `_requestedPipes`; the answer carries only the
id, so the name an id stands for is decided by the position in the queue. The
events are recorded in the order in which they are raised.
-/

namespace InMemoryFuzzing.RemoteControl

open Base Platform DotNet

/-- The events `PipeOpened`, `PipeData` and `PipeClosed` with their arguments. -/
inductive PipeEvent
  | opened (pipeId : Int) (pipeName : String)
  | data (pipeId : Int) (pipeName : String) (data : List UInt8) (index offset : Nat)
  | closed (pipeId : Int) (pipeName : String)
  deriving DecidableEq, Repr

/-- `_requestedPipes`, `_registeredPipes` and the events raised so far. -/
structure PipeClient where
  requestedPipes : List String
  registeredPipes : Int → Option String
  events : List PipeEvent

/-- `GetPipeName`. -/
def PipeClient.getPipeName (c : PipeClient) (pipeId : Int) : String :=
  (c.registeredPipes pipeId).getD "<not available>"

/-- Raise an event. -/
def PipeClient.raise (c : PipeClient) (event : PipeEvent) : PipeClient :=
  { c with events := c.events ++ [event] }

/-- `_registeredPipes[pipeId] = name`. -/
def PipeClient.register (c : PipeClient) (pipeId : Int) (pipeName : String) : PipeClient :=
  { c with registeredPipes := fun i => if i = pipeId then some pipeName else c.registeredPipes i }

/-- `_registeredPipes.Remove (pipeId)`. -/
def PipeClient.remove (c : PipeClient) (pipeId : Int) : PipeClient :=
  { c with registeredPipes := fun i => if i = pipeId then none else c.registeredPipes i }

/-- `HandlerRegisteredPipe`. -/
def handlerRegisteredPipe : Handler PipeClient := fun c _ data =>
  match toInt16 data 0 with
  | .error raised => (c, some raised)
  | .ok pipeId =>
      match c.requestedPipes with
      | pipeName :: rest =>
          let c := { c with requestedPipes := rest }
          if (c.registeredPipes pipeId).isNone then
            let c := c.register pipeId pipeName
            (c.raise (.opened pipeId (c.getPipeName pipeId)), none)
          -- `Add` raises, after its argument was dequeued
          else (c, some .duplicateKey)
      | [] => (c.raise (.opened pipeId (c.getPipeName pipeId)), none)

/-- `HandlerPipeData`. -/
def handlerPipeData : Handler PipeClient := fun c _ data =>
  match toInt16 data 0 with
  | .error raised => (c, some raised)
  | .ok pipeId =>
      (c.raise (.data pipeId (c.getPipeName pipeId) data 2 (data.length - 2)), none)

/-- `HandlerPipeClosed`. -/
def handlerPipeClosed : Handler PipeClient := fun c _ data =>
  match toInt16 data 0 with
  | .error raised => (c, some raised)
  | .ok pipeId =>
      ((c.raise (.closed pipeId (c.getPipeName pipeId))).remove pipeId, none)

/-- The registrations of the constructor for the pipe packets. -/
def pipeHandlers : Handlers PipeClient :=
  registerHandler
    (registerHandler (registerHandler (fun _ => none) "RPIR" handlerRegisteredPipe)
      "RPIP" handlerPipeData)
    "RPIC" handlerPipeClosed

/-! ## One frame of the server -/

/-- The event a frame is reported as, under a given name. -/
def PipeFrame.event (pipeName : String) : PipeFrame → PipeEvent
  | .registered pipeId => .opened pipeId pipeName
  | .data pipeId chunk =>
      .data pipeId pipeName (CLib.writeInt16T pipeId ++ chunk) 2 chunk.length
  | .closed pipeId => .closed pipeId pipeName

/-- Dispatch a frame of the server to its handler. -/
def dispatchFrame (s : Session PipeClient) (f : PipeFrame) :
    Except (Crash PipeClient) (Session PipeClient) :=
  dispatch pipeHandlers s f.packet.decoded.1 f.packet.decoded.2

/-- An `int16_t`. -/
def IsInt16 (i : Int) : Prop := -32768 ≤ i ∧ i < 32768

theorem toInt16_writeInt16T {i : Int} (hi : IsInt16 i) (rest : List UInt8) :
    toInt16 (CLib.writeInt16T i ++ rest) 0 = .ok i := by
  rw [toInt16, if_pos (by rw [List.length_append, CLib.writeInt16T_length]; omega),
    List.drop_zero, List.take_left' (CLib.writeInt16T_length i)]
  exact congrArg Except.ok (CLib.int16_fromLE_writeInt16T hi.1 hi.2)

/-- A session after a frame whose handler returned. -/
def Session.after (s : Session PipeClient) (f : PipeFrame) (world : PipeClient) :
    Session PipeClient :=
  ⟨s.dispatched ++ [f.packet.decoded], s.console, world⟩

theorem dispatchFrame_of_handler {s : Session PipeClient} {f : PipeFrame}
    {handler : Handler PipeClient} {world : PipeClient}
    (hhandler : pipeHandlers f.packet.decoded.1 = some handler)
    (hreturns : handler s.world f.packet.decoded.1 f.packet.decoded.2 = (world, none)) :
    dispatchFrame s f = .ok (s.after f world) := by
  rw [dispatchFrame, dispatch, hhandler]
  simp only [hreturns]
  rfl

/-- `RPIR` for a fresh id gives it the name at the head of the queue. -/
theorem dispatchFrame_registered {s : Session PipeClient} {i : Int} (hi : IsInt16 i)
    {pipeName : String} {rest : List String} (hqueue : s.world.requestedPipes = pipeName :: rest)
    (hfresh : s.world.registeredPipes i = none) :
    dispatchFrame s (.registered i) = .ok (s.after (.registered i)
      ((({ s.world with requestedPipes := rest } : PipeClient).register i pipeName).raise
        (.opened i pipeName))) := by
  have hid : toInt16 (CLib.writeInt16T i) 0 = .ok i := by
    simpa using toInt16_writeInt16T hi []
  have hhandler : pipeHandlers "RPIR" = some handlerRegisteredPipe := by
    simp [pipeHandlers, registerHandler]
  refine dispatchFrame_of_handler hhandler ?_
  show handlerRegisteredPipe s.world "RPIR" (CLib.writeInt16T i) = _
  simp only [handlerRegisteredPipe, hid, hqueue, hfresh, Option.isNone_none, if_true]
  simp [PipeClient.getPipeName, PipeClient.register]

/-- `RPIP` is reported under the registered name. -/
theorem dispatchFrame_data {s : Session PipeClient} {i : Int} (hi : IsInt16 i)
    (chunk : List UInt8) {pipeName : String}
    (hname : s.world.registeredPipes i = some pipeName) :
    dispatchFrame s (.data i chunk) = .ok (s.after (.data i chunk)
      (s.world.raise ((PipeFrame.data i chunk).event pipeName))) := by
  have hhandler : pipeHandlers "RPIP" = some handlerPipeData := by
    simp [pipeHandlers, registerHandler]
  refine dispatchFrame_of_handler hhandler ?_
  show handlerPipeData s.world "RPIP" (CLib.writeInt16T i ++ chunk) = _
  simp [handlerPipeData, toInt16_writeInt16T hi, PipeClient.getPipeName, hname, PipeFrame.event]

/-- `RPIC` is reported under the registered name, which is then removed. -/
theorem dispatchFrame_closed {s : Session PipeClient} {i : Int} (hi : IsInt16 i)
    {pipeName : String} (hname : s.world.registeredPipes i = some pipeName) :
    dispatchFrame s (.closed i) = .ok (s.after (.closed i)
      ((s.world.raise (.closed i pipeName)).remove i)) := by
  have hid : toInt16 (CLib.writeInt16T i) 0 = .ok i := by
    simpa using toInt16_writeInt16T hi []
  have hhandler : pipeHandlers "RPIC" = some handlerPipeClosed := by
    simp [pipeHandlers, registerHandler]
  refine dispatchFrame_of_handler hhandler ?_
  show handlerPipeClosed s.world "RPIC" (CLib.writeInt16T i) = _
  simp [handlerPipeClosed, hid, PipeClient.getPipeName, hname]

end InMemoryFuzzing.RemoteControl

import InMemoryFuzzing.RemoteControl.ExecClient
import InMemoryFuzzing.RemoteControl.ExecHandler
import InMemoryFuzzing.RemoteControl.PipeNet
import InMemoryFuzzing.RemoteControl.ProcClient
import InMemoryFuzzing.RemoteControl.ProcHandler

/-!
# The whole remote control protocol

Every command of the client, the main loop of the server with `process_packet`
and its four handlers, the pipe threads, and the client's five handlers, as one
transition system at the granularity of whole packets. The system of the pipe
protocol alone is `pipeSystem`; here its frames share both directions of the
connection with everything else.

The main loop handles one packet after the other. A handler that runs into
undefined behaviour sets `faulted`; nothing is claimed about what such a server
does next, so the field is never cleared.
-/

namespace InMemoryFuzzing.RemoteControl

open Base Platform DotNet

/-! ## The client's commands -/

/-- The subclasses of `RemoteCommand`. -/
inductive RemoteCommand
  | echo (message : String)
  | requestPipe (pipeName : String)
  | exec (command : RemoteExecCommand)
  | processes

/-- `Receiver`. -/
def RemoteCommand.receiver : RemoteCommand → String
  | .echo _ => "ECHO"
  | .requestPipe _ => "PIPE"
  | .exec _ => "EXEC"
  | .processes => "PROC"

/-- `Data`. -/
def RemoteCommand.data : RemoteCommand → List UInt8
  | .echo message => asciiGetBytes message
  | .requestPipe pipeName => asciiGetBytes pipeName
  | .exec command => command.data
  | .processes => []

/-- What `SendCommand` passes to `SendPacket`. -/
def RemoteCommand.packet (c : RemoteCommand) : Packet := ⟨asciiGetBytes c.receiver, c.data⟩

/-! ## The main loop of the server -/

/-- The functions in `cmd_handlers`. -/
inductive CmdHandler
  | handlerEcho
  | handlerRequestPipe
  | handlerExec
  | handlerProc
  deriving DecidableEq, Repr

/-- `cmd_handlers`, without its terminator. -/
def cmdHandlers : List (List UInt8 × CmdHandler) :=
  [([0x45, 0x43, 0x48, 0x4F], .handlerEcho), ([0x50, 0x49, 0x50, 0x45], .handlerRequestPipe),
    ([0x45, 0x58, 0x45, 0x43], .handlerExec), ([0x50, 0x52, 0x4F, 0x43], .handlerProc)]

/-- The search of `process_packet`: the first entry that agrees with the receiver. -/
def findHandler (receiver : List UInt8) : Option CmdHandler :=
  (cmdHandlers.find? fun entry => CLib.strncmpEq 4 entry.1 receiver).map Prod.snd

/-- The line `handler_echo` prints behind `ECHO: `. -/
def handlerEcho (data : List UInt8) : List UInt8 := data.takeWhile (· ≠ 0)

/-- What the handlers meet outside their own code. -/
structure HandlerWorld where
  spawn : SpawnWorld
  /-- What the receive buffer holds; the payload stands at its start. -/
  behind : Memory UInt8
  /-- What `output_buffer` holds before it is written. -/
  stack : Memory UInt8
  /-- The processes `readproc` returns. -/
  table : List Proc

/-- A packet the server has sent, by the function that sent it; the client sees
the packet only. -/
inductive Outgoing
  | pipe (frame : PipeFrame)
  | status (packet : Packet)
  | processes (packet : Packet)
  deriving DecidableEq

def Outgoing.packet : Outgoing → Packet
  | .pipe frame => frame.packet
  | .status packet => packet
  | .processes packet => packet

structure RemoteServer where
  pipes : Server
  /-- The lines of `handler_echo`. -/
  printed : List (List UInt8)
  /-- The calls of `posix_spawn`. -/
  spawned : List SpawnCall
  /-- A handler has run into undefined behaviour. -/
  faulted : Bool

/-- The packet of a `send_packet` call; `write` gets its length as a `size_t`. -/
def sentPacket (receiver data : List UInt8) (dataLength : Int) : Option Packet :=
  if 0 ≤ dataLength then some ⟨receiver, data.take dataLength.toNat⟩ else none

/-- The effect of one event of `handler_exec` on the server, and what it sends. -/
def execEffect (sv : RemoteServer × List Outgoing) : ExecEvent → RemoteServer × List Outgoing
  | .spawn call => ({ sv.1 with spawned := sv.1.spawned ++ [call] }, sv.2)
  | .send receiver data dataLength =>
      match sentPacket receiver data dataLength with
      | some p => (sv.1, sv.2 ++ [.status p])
      | none => ({ sv.1 with faulted := true }, sv.2)
  | _ => sv

/-- The effect of one event of `handler_proc`. -/
def procEffect (sv : RemoteServer × List Outgoing) : ProcEvent → RemoteServer × List Outgoing
  | .send receiver data dataLength =>
      match sentPacket receiver data dataLength with
      | some p => (sv.1, sv.2 ++ [.processes p])
      | none => ({ sv.1 with faulted := true }, sv.2)
  | .write _ => sv

/-- Run a handler: its events one after the other, and the fault at the end. -/
def runHandler {ε : Type} (effect : RemoteServer × List Outgoing → ε → RemoteServer × List Outgoing)
    (sv : RemoteServer) (run : Traced ε Unit) : RemoteServer × List Outgoing :=
  let done := run.events.foldl effect (sv, [])
  match run.value with
  | some () => done
  | none => ({ done.1 with faulted := true }, done.2)

/-- A step of the pipe part. -/
def RemoteServer.serve (sv : RemoteServer) (act : ServerAct) :
    Option (RemoteServer × List Outgoing) :=
  (sv.pipes.step act).map fun (pipes, sent) =>
    ({ sv with pipes }, sent.toList.map Outgoing.pipe)

/-- `process_packet (receiver, data, data_length)`. A receiver without a handler
is ignored. -/
def processPacket (world : HandlerWorld) (sv : RemoteServer) (p : Packet) :
    Option (RemoteServer × List Outgoing) :=
  match findHandler p.receiver with
  | some .handlerEcho => some ({ sv with printed := sv.printed ++ [handlerEcho p.data] }, [])
  | some .handlerRequestPipe => sv.serve (.request p.data)
  | some .handlerExec =>
      some (runHandler execEffect sv
        (handlerExec world.spawn (world.behind.store 0 p.data) p.data.length))
  | some .handlerProc => some (runHandler procEffect sv (handlerProc world.stack world.table))
  | none => some (sv, [])

/-! ## The client's handlers -/

/-- The tables of the client, and the events it has raised. -/
structure RemoteClient where
  pipes : PipeClient
  execStatus : List ExecStatus
  remoteProcessInfo : List (List RemoteProcessInfo)

/-- A handler that uses the pipe tables only. -/
def onPipes (handler : Handler PipeClient) : Handler RemoteClient := fun c receiver data =>
  let (pipes, raised) := handler c.pipes receiver data
  ({ c with pipes }, raised)

/-- `HandlerExecStatus`, as a handler. -/
def raiseExecStatus : Handler RemoteClient := fun c _ data =>
  match handlerExecStatus data with
  | .ok status => ({ c with execStatus := c.execStatus ++ [status] }, none)
  | .error raised => (c, some raised)

/-- `HandlerRemoteProcesses`, as a handler. -/
def raiseRemoteProcessInfo : Handler RemoteClient := fun c _ data =>
  match handlerRemoteProcesses data with
  | .ok processes => ({ c with remoteProcessInfo := c.remoteProcessInfo ++ [processes] }, none)
  | .error raised => (c, some raised)

/-- The registrations of the constructor of `RemoteControlProtocol`. -/
def remoteHandlers : Handlers RemoteClient :=
  [("RPIR", onPipes handlerRegisteredPipe), ("RPIP", onPipes handlerPipeData),
    ("RPIC", onPipes handlerPipeClosed), ("REXS", raiseExecStatus),
    ("RPRC", raiseRemoteProcessInfo)].foldl
      (fun handlers entry => registerHandler handlers entry.1 entry.2) fun _ => none

/-- Dispatch a packet of the server. -/
def dispatchRemote (s : Session RemoteClient) (p : Packet) :
    Except (Crash RemoteClient) (Session RemoteClient) :=
  dispatch remoteHandlers s p.decoded.1 p.decoded.2

/-! ## Both ends -/

structure RemoteNet where
  /-- The commands sent so far, oldest first, and the one `unsent` names. -/
  issued : List RemoteCommand
  /-- The `RemoteRequestPipe` call that has queued its name and not sent its packet yet. -/
  unsent : Option String
  /-- Packets on their way to the server. -/
  requests : List Packet
  /-- What the handlers have met, for every packet handled. -/
  worlds : List HandlerWorld
  server : RemoteServer
  /-- Packets on their way to the client. -/
  incoming : List Outgoing
  /-- Packets dispatched by the client. -/
  received : List Outgoing
  client : Except (Crash RemoteClient) (Session RemoteClient)

inductive RemoteAct
  /-- `SendCommand`, for a command other than a pipe request. -/
  | sendCommand (command : RemoteCommand)
  /-- `RemoteRequestPipe` up to `_requestedPipes.Enqueue`. -/
  | requestPipe (pipeName : String)
  /-- The rest of it. -/
  | sendRequest
  /-- The main loop takes the next packet. -/
  | processPacket (world : HandlerWorld)
  /-- The main loop starts the pipe thread. -/
  | startThread
  | thread (k : Nat) (act : ThreadAct)
  /-- The client dispatches the next packet. -/
  | receive

/-- A command whose packet is sent at once. -/
def RemoteCommand.atOnce : RemoteCommand → Bool
  | .requestPipe _ => false
  | _ => true

/-- `_requestedPipes.Enqueue`. -/
def Session.enqueueRemote (s : Session RemoteClient) (pipeName : String) : Session RemoteClient :=
  { s with world := { s.world with pipes :=
      { s.world.pipes with requestedPipes := s.world.pipes.requestedPipes ++ [pipeName] } } }

/-- What the server has done is in its state, and what it has sent is on its way. -/
def RemoteNet.served (s : RemoteNet) (result : RemoteServer × List Outgoing) : RemoteNet :=
  { s with server := result.1, incoming := s.incoming ++ result.2 }

/-- One step of the client, of the main loop or of a pipe thread. -/
def RemoteNet.step (s : RemoteNet) : RemoteAct → Option RemoteNet
  | .sendCommand command =>
      match s.unsent, command.atOnce with
      | none, true =>
          some { s with issued := s.issued ++ [command], requests := s.requests ++ [command.packet] }
      | _, _ => none
  | .requestPipe pipeName =>
      match s.unsent, s.client with
      | none, .ok session =>
          some { s with
            issued := s.issued ++ [.requestPipe pipeName], unsent := some pipeName,
            client := .ok (session.enqueueRemote pipeName) }
      | _, _ => none
  | .sendRequest =>
      match s.unsent with
      | some pipeName =>
          some { s with
            unsent := none
            requests := s.requests ++ [(RemoteCommand.requestPipe pipeName).packet] }
      | none => none
  | .processPacket world =>
      match s.requests, s.server.pipes.starting with
      | p :: rest, none =>
          (processPacket world s.server p).map fun result =>
            { s with requests := rest, worlds := s.worlds ++ [world] }.served result
      | _, _ => none
  | .startThread => (s.server.serve .start).map s.served
  | .thread k act => (s.server.serve (.thread k act)).map s.served
  | .receive =>
      match s.incoming, s.client with
      | f :: rest, .ok session =>
          some { s with
            incoming := rest, received := s.received ++ [f]
            client := dispatchRemote session f.packet }
      | _, _ => none

/-- Both ends before the first command, on a server whose `next_pipe_id` is `n0`. -/
def RemoteNet.start (n0 : Int) : RemoteNet where
  issued := []
  unsent := none
  requests := []
  worlds := []
  server := ⟨⟨CLib.int16 n0, none, []⟩, [], [], false⟩
  incoming := []
  received := []
  client := .ok ⟨[], [], ⟨⟨[], fun _ => none, []⟩, [], []⟩⟩

/-- All interleavings. -/
def remoteSystem (n0 : Int) : TSys RemoteNet RemoteAct where
  init s := s = .start n0
  step := RemoteNet.step

end InMemoryFuzzing.RemoteControl

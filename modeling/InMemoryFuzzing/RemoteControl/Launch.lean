import InMemoryFuzzing.RemoteControl.RemoteNet
import InMemoryFuzzing.Utils.StringHelper

/-!
# Launching the programs of a configuration

`XmlFuzzFactory.RemoteExec` sends one `RemoteExecutionInfo` after the other and
waits for the status of each; the status arrives on the thread that reads the
connection (`Handle_remoteControlProtocolExecStatus`). Both run on top of the
remote control protocol, and the assignments of the handler are steps of their
own.

A text of a command may refer to a process of the server. The first such
reference stops the formatter until the process table has arrived. Nothing in
front of it depends on the table, so the model begins the text anew.
-/

namespace InMemoryFuzzing.RemoteControl

open Base Platform DotNet Utils

/-! ## `RemoteExecutionInfo.SendCommand` -/

/-- What the formatter's `OnGetParameter` raises; `tableNeeded` is the request for
the process table, which raises nothing. -/
inductive LaunchRaised
  | invalidVariable
  | notSupported
  | notFound (searchString : List Char)
  | nullReference
  | tableNeeded
  deriving DecidableEq, Repr

/-- `FindProcess`, and the exception where it returns null. -/
def findProcess (searchString : List Char) :
    List RemoteProcessInfo → Except LaunchRaised RemoteProcessInfo
  | [] => .error (.notFound searchString)
  | procInfo :: rest =>
      match procInfo.command with
      | none => .error .nullReference
      | some command =>
          if searchString <:+: command.toList then .ok procInfo else findProcess searchString rest

/-- The delegate behind `OnGetParameter`. -/
def remoteParameter (processes : Option (List RemoteProcessInfo)) (parameterName : List Char) :
    Except LaunchRaised Parameter :=
  match splitToKeyValue parameterName '|' with
  | none => .error .invalidVariable
  | some (key, value) =>
      if key = "remote-pid".toList then
        match processes with
        | none => .error .tableNeeded
        | some processes =>
            (findProcess value processes).map fun procInfo => some (CLib.formatD procInfo.pid)
      else .error .notSupported

/-- A text of the command, for the process table as far as it is known. -/
def expandText (processes : Option (List RemoteProcessInfo)) (s : String) :
    Except (Raised LaunchRaised) String :=
  ((variableFormatter (remoteParameter processes)).formatText s.toList []).map String.ofList

/-- The command that is sent. -/
def expandCommand (processes : Option (List RemoteProcessInfo)) (cmd : RemoteExecCommand) :
    Except (Raised LaunchRaised) RemoteExecCommand := do
  let newCmd ← expandText processes cmd.path
  let newArgs ← cmd.args.mapM (expandText processes)
  let newEnv ← cmd.envp.mapM (expandText processes)
  return ⟨cmd.name, newCmd, newArgs, newEnv⟩

/-! ## The two threads -/

inductive ExecutionStatus
  | success
  | error
  | timeout
  deriving DecidableEq, Repr

/-- `RemoteExecutionInfo`; `signaled` is its `SyncEvent`. -/
structure RemoteExecutionInfo where
  cmd : RemoteExecCommand
  execStatus : ExecutionStatus
  errorCode : Int
  remotePid : Int
  signaled : Bool

/-- The constructor; an enumeration starts as its first value. -/
def RemoteExecutionInfo.new (cmd : RemoteExecCommand) : RemoteExecutionInfo :=
  ⟨cmd, .success, 0, 0, false⟩

/-- What has left `RemoteExec`. -/
inductive LaunchFailure
  | format (e : Raised LaunchRaised)
  | timeout
  | errorCode (code : Int)
  deriving DecidableEq, Repr

/-- Where `RemoteExec` is. -/
inductive LaunchPhase
  /-- At the head of the loop. -/
  | next
  /-- At the first text of the command. -/
  | expanding
  /-- Waiting for the process table. -/
  | awaitTable
  /-- In `WaitOne`. -/
  | waiting
  | finished
  | raised (failure : LaunchFailure)
  deriving DecidableEq, Repr

/-- The next assignment of `Handle_remoteControlProtocolExecStatus`. -/
inductive CallbackStage
  | execStatus
  | errorCode
  | pid
  | set
  deriving DecidableEq, Repr

structure Launcher where
  net : RemoteNet
  /-- The commands the loop has come to. -/
  started : List RemoteExecCommand
  todo : List RemoteExecCommand
  /-- How many of them the loop has left behind. -/
  passed : Nat
  phase : LaunchPhase
  /-- `_currentRemoteExecInfo`. -/
  current : Option RemoteExecutionInfo
  /-- `processes` of the running `SendCommand`. -/
  processes : Option (List RemoteProcessInfo)
  /-- The status the handler has been called for, as long as it runs. -/
  callback : Option (ExecStatus × CallbackStage)

inductive LaunchAct
  /-- A step of the connection; the commands are sent by `RemoteExec` only. -/
  | net (act : RemoteAct)
  /-- The loop comes to the next command, or to its end. -/
  | next
  /-- The texts are expanded, and what comes of it is sent. -/
  | expand
  /-- The process table has arrived. -/
  | tableArrived
  /-- One assignment of the handler. -/
  | callback
  /-- `WaitOne` returns true. -/
  | wake
  /-- `WaitOne` returns false. -/
  | timeout

/-- The events raised so far. -/
def RemoteNet.execEvents (s : RemoteNet) : List ExecStatus :=
  match s.client with
  | .ok session => session.world.execStatus
  | .error crash => crash.session.world.execStatus

def RemoteNet.tableEvents (s : RemoteNet) : List (List RemoteProcessInfo) :=
  match s.client with
  | .ok session => session.world.remoteProcessInfo
  | .error crash => crash.session.world.remoteProcessInfo

/-- `_currentRemoteExecInfo.Cmd.Name == name`. -/
def Launcher.awaits (s : Launcher) (status : ExecStatus) : Bool :=
  s.current.any fun info => info.cmd.name == status.name

/-- The handlers of the events that a step of the connection has raised. -/
def Launcher.notified (s : Launcher) (net : RemoteNet) : Launcher :=
  { s with
    net
    callback :=
      match net.execEvents.drop s.net.execEvents.length with
      | status :: _ => if s.awaits status then some (status, .execStatus) else none
      | [] => s.callback
    processes :=
      match net.tableEvents.drop s.net.tableEvents.length with
      | table :: _ => some table
      | [] => s.processes }

/-- One assignment, and the stage behind it. -/
def assign (info : RemoteExecutionInfo) (status : ExecStatus) :
    CallbackStage → RemoteExecutionInfo × Option CallbackStage
  | .execStatus =>
      ({ info with execStatus := if status.status = 0 then .success else .error }, some .errorCode)
  | .errorCode => ({ info with errorCode := status.status }, some .pid)
  | .pid => ({ info with remotePid := status.pid }, some .set)
  | .set => ({ info with signaled := true }, none)

/-- One step of the connection, of the handler or of `RemoteExec`. -/
def Launcher.step (s : Launcher) : LaunchAct → Option Launcher
  | .net act =>
      match act, s.callback with
      | .sendCommand _, _ => none
      -- the thread that reads is still in the handler
      | .receive, some _ => none
      | act, _ => (s.net.step act).map s.notified
  | .next =>
      match s.phase, s.todo with
      | .next, cmd :: rest =>
          some { s with
            started := s.started ++ [cmd], todo := rest, phase := .expanding
            current := some (.new cmd), processes := none }
      | .next, [] => some { s with phase := .finished }
      | _, _ => none
  | .expand =>
      match s.phase, s.current with
      | .expanding, some info =>
          match expandCommand s.processes info.cmd with
          | .ok cmd =>
              (s.net.step (.sendCommand (.exec cmd))).map fun net =>
                { s with net, phase := .waiting }
          | .error (.parameter .tableNeeded) =>
              (s.net.step (.sendCommand .processes)).map fun net =>
                { s with net, phase := .awaitTable }
          | .error e => some { s with phase := .raised (.format e) }
      | _, _ => none
  | .tableArrived =>
      match s.phase, s.processes with
      | .awaitTable, some _ => some { s with phase := .expanding }
      | _, _ => none
  | .callback =>
      match s.callback, s.current with
      | some (status, stage), some info =>
          let (info, stage) := assign info status stage
          some { s with current := some info, callback := stage.map fun stage => (status, stage) }
      | _, _ => none
  | .wake =>
      match s.phase, s.current with
      | .waiting, some info =>
          if info.signaled then
            if info.execStatus = .success then
              some { s with phase := .next, passed := s.passed + 1 }
            else some { s with phase := .raised (.errorCode info.errorCode) }
          else none
      | _, _ => none
  | .timeout =>
      match s.phase, s.current with
      | .waiting, some info =>
          if info.signaled then none else some { s with phase := .raised .timeout }
      | _, _ => none

/-- Before the loop, on a fresh connection. -/
def Launcher.start (n0 : Int) (commands : List RemoteExecCommand) : Launcher :=
  ⟨.start n0, [], commands, 0, .next, none, none, none⟩

/-- All interleavings of `RemoteExec` for these commands. -/
def launchSystem (n0 : Int) (commands : List RemoteExecCommand) : TSys Launcher LaunchAct where
  init s := s = .start n0 commands
  step := Launcher.step

end InMemoryFuzzing.RemoteControl

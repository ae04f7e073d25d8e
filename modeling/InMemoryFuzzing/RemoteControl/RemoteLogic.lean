import InMemoryFuzzing.Base.Simulation
import InMemoryFuzzing.RemoteControl.PipeLogic
import InMemoryFuzzing.RemoteControl.RemoteNet
import InMemoryFuzzing.RemoteControl.Theorems.Responses

/-!
# Why commands, calls and answers stay in step

One lemma says what each handler of the server does with a command of the client
(`processPacket_*`), one what the client does with each answer
(`dispatchRemote_*`). `RemoteInv` is the bookkeeping between the two ends. The
pipe frames are left to the pipe protocol: `PipeView` relates the two systems,
and `remote_simulation` shows that neither disturbs the other.
-/

namespace InMemoryFuzzing.RemoteControl

open Base Platform DotNet

/-! ## What a command asks for -/

/-- A program the format can carry: strings of NUL-free ASCII characters, and a
payload that fits into a packet. -/
structure RemoteExecCommand.Fits (cmd : RemoteExecCommand) : Prop where
  ascii : ∀ s ∈ [cmd.name, cmd.path] ++ cmd.args ++ cmd.envp, ∀ c ∈ s.toList,
    1 ≤ c.toNat ∧ c.toNat ≤ 127
  size : cmd.data.length ≤ 9990

/-- The call of `posix_spawn` it stands for. -/
def RemoteExecCommand.spawnCall (cmd : RemoteExecCommand) : SpawnCall :=
  ⟨spawnString cmd.name, spawnString cmd.path, spawnList (cmd.path :: cmd.args), spawnList cmd.envp⟩

/-- The status the client is to be told. -/
def RemoteExecCommand.status (cmd : RemoteExecCommand) (world : SpawnWorld) : ExecStatus :=
  ⟨cmd.name, if world.spawnResult = 0 then world.pid else 0, world.spawnResult⟩

/-- What an entry of the process table is to be on the client. -/
def ProcEntry.info (e : ProcEntry) : RemoteProcessInfo := ⟨some (asciiGetString e.cmd), e.pid⟩

/-- The process table as the client is to see it. -/
def HandlerWorld.processes (world : HandlerWorld) : List RemoteProcessInfo :=
  (procEntries world.table).map ProcEntry.info

/-- A world in which the handlers stay inside their buffers. -/
structure HandlerWorld.Tame (world : HandlerWorld) : Prop where
  pid_int32 : -2 ^ 31 ≤ world.spawn.pid ∧ world.spawn.pid < 2 ^ 31
  result_int32 : -2 ^ 31 ≤ world.spawn.spawnResult ∧ world.spawn.spawnResult < 2 ^ 31
  ascii : ∀ p ∈ world.table, ∀ s ∈ p.cmdline, ∀ b ∈ s, b.toNat < 128
  fits : 4 + (entriesBytes (procEntries world.table)).length ≤ 9000

/-- A command whose payload fits into a packet, and whose program the format can carry. -/
def RemoteCommand.Fits : RemoteCommand → Prop
  | .exec cmd => cmd.Fits
  | c => c.data.length ≤ 9990

theorem RemoteCommand.Fits.data_le {c : RemoteCommand} (h : c.Fits) : c.data.length ≤ 9990 := by
  cases c with
  | exec cmd => exact h.size
  | _ => exact h

/-- The programs a command starts. -/
def RemoteCommand.spawns : RemoteCommand → List SpawnCall
  | .exec cmd => [cmd.spawnCall]
  | _ => []

/-- The lines it prints on the server. -/
def RemoteCommand.prints : RemoteCommand → List (List UInt8)
  | .echo message => [handlerEcho (asciiGetBytes message)]
  | _ => []

/-- The status it is answered with. -/
def RemoteCommand.statuses (world : HandlerWorld) : RemoteCommand → List ExecStatus
  | .exec cmd => [cmd.status world.spawn]
  | _ => []

/-- The process table it is answered with. -/
def RemoteCommand.tables (world : HandlerWorld) : RemoteCommand → List (List RemoteProcessInfo)
  | .processes => [world.processes]
  | _ => []

/-- The name of a pipe request. -/
def RemoteCommand.pipeName? : RemoteCommand → Option String
  | .requestPipe pipeName => some pipeName
  | _ => none

/-- The status the client reads in a packet. -/
def Outgoing.statuses : Outgoing → List ExecStatus
  | .status p => (handlerExecStatus p.data).toOption.toList
  | _ => []

/-- The process table the client reads in it. -/
def Outgoing.tables : Outgoing → List (List RemoteProcessInfo)
  | .processes p => (handlerRemoteProcesses p.data).toOption.toList
  | _ => []

def Outgoing.frame? : Outgoing → Option PipeFrame
  | .pipe f => some f
  | _ => none

/-- A packet that `send_packet` can send and the client's handlers can take apart. -/
def Outgoing.Sound : Outgoing → Prop
  | .pipe _ => True
  | .status p => p.receiver = rexs ∧ p.data.length ≤ 32767 ∧
      ∃ status, handlerExecStatus p.data = .ok status
  | .processes p => p.receiver = rprc ∧ p.data.length ≤ 32767 ∧
      ∃ table, handlerRemoteProcesses p.data = .ok table

/-! ## The handlers of the server -/

/-- The handler a command is meant for. -/
def RemoteCommand.handler : RemoteCommand → CmdHandler
  | .echo _ => .handlerEcho
  | .requestPipe _ => .handlerRequestPipe
  | .exec _ => .handlerExec
  | .processes => .handlerProc

/-- It is the one that `process_packet` finds. -/
theorem findHandler_packet (c : RemoteCommand) :
    findHandler c.packet.receiver = some c.handler := by
  have hecho : findHandler (asciiGetBytes "ECHO") = some .handlerEcho := by decide
  have hpipe : findHandler (asciiGetBytes "PIPE") = some .handlerRequestPipe := by decide
  have hexec : findHandler (asciiGetBytes "EXEC") = some .handlerExec := by decide
  have hproc : findHandler (asciiGetBytes "PROC") = some .handlerProc := by decide
  cases c with
  | echo message => rwa [RemoteCommand.packet, RemoteCommand.receiver]
  | requestPipe pipeName => rwa [RemoteCommand.packet, RemoteCommand.receiver]
  | exec command => rwa [RemoteCommand.packet, RemoteCommand.receiver]
  | processes => rwa [RemoteCommand.packet, RemoteCommand.receiver]

/-- The packets of the calls of `send_packet`, whose lengths are not negative. -/
def sentPackets (sends : List SentPacket) : List Packet :=
  sends.map fun sent => ⟨sent.1, sent.2.1.take sent.2.2.toNat⟩

theorem foldl_execEffect (trace : List ExecEvent) (sv : RemoteServer) (out : List Outgoing)
    (h : ∀ sent ∈ execSends trace, 0 ≤ sent.2.2) :
    trace.foldl execEffect (sv, out) =
      ({ sv with spawned := sv.spawned ++ spawnCalls trace },
        out ++ (sentPackets (execSends trace)).map .status) := by
  induction trace generalizing sv out with
  | nil => simp [spawnCalls, execSends, sentPackets]
  | cons e rest ih =>
      rw [show e :: rest = [e] ++ rest from rfl, execSends_append] at h ⊢
      have hrest := fun sent hs => h sent (List.mem_append_right _ hs)
      rw [List.foldl_append, spawnCalls_append, sentPackets, List.map_append, List.map_append]
      cases e with
      | send receiver data n =>
          have hn : 0 ≤ n := h (receiver, data, n) (by simp [execSends])
          have hsend : execEffect (sv, out) (.send receiver data n) =
              (sv, out ++ [.status ⟨receiver, data.take n.toNat⟩]) := by
            rw [execEffect, sentPacket, if_pos hn]
          show rest.foldl execEffect (execEffect (sv, out) (.send receiver data n)) = _
          rw [hsend, ih _ _ hrest, sentPackets, List.append_assoc]
          rfl
      | spawn call =>
          show rest.foldl execEffect ({ sv with spawned := sv.spawned ++ [call] }, out) = _
          rw [ih _ _ hrest, sentPackets]
          simp [spawnCalls, execSends]
      | read i => exact ih sv out hrest
      | assign v => exact ih sv out hrest
      | use v => exact ih sv out hrest
      | free v => exact ih sv out hrest
      | gotoExit => exact ih sv out hrest

theorem foldl_procEffect (trace : List ProcEvent) (sv : RemoteServer) (out : List Outgoing)
    (h : ∀ sent ∈ procSends trace, 0 ≤ sent.2.2) :
    trace.foldl procEffect (sv, out) =
      (sv, out ++ (sentPackets (procSends trace)).map .processes) := by
  induction trace generalizing out with
  | nil => simp [procSends, sentPackets]
  | cons e rest ih =>
      rw [show e :: rest = [e] ++ rest from rfl, procSends_append] at h ⊢
      have hrest := fun sent hs => h sent (List.mem_append_right _ hs)
      rw [List.foldl_append, sentPackets, List.map_append, List.map_append]
      cases e with
      | send receiver data n =>
          have hn : 0 ≤ n := h (receiver, data, n) (by simp [procSends])
          have hsend : procEffect (sv, out) (.send receiver data n) =
              (sv, out ++ [.processes ⟨receiver, data.take n.toNat⟩]) := by
            rw [procEffect, sentPacket, if_pos hn]
          show rest.foldl procEffect (procEffect (sv, out) (.send receiver data n)) = _
          rw [hsend, ih _ hrest, sentPackets, List.append_assoc]
          rfl
      | write i => exact ih out hrest

/-- `handler_exec` on the payload of a program the format can carry. -/
theorem handlerExec_answer {cmd : RemoteExecCommand} (hcmd : cmd.Fits) (world : SpawnWorld)
    (hpid : -2 ^ 31 ≤ world.pid ∧ world.pid < 2 ^ 31)
    (hresult : -2 ^ 31 ≤ world.spawnResult ∧ world.spawnResult < 2 ^ 31) (behind : Memory UInt8) :
    ∃ trace response,
      (handlerExec world (behind.store 0 cmd.data) cmd.data.length).Returns trace () ∧
      spawnCalls trace = [cmd.spawnCall] ∧
      execSends trace = [(rexs, response, (response.length : Int))] ∧ response.length ≤ 32767 ∧
      handlerExecStatus response = .ok (cmd.status world) := by
  have hbytes : (cmd.encoding hcmd.size).bytes <+:
      (behind.store 0 cmd.data).load 0 cmd.data.length := by
    rw [cmd.encoding_bytes hcmd.size]
    exact Memory.prefix_of_holds (Memory.holds_store_self _ _ _) (Nat.le_refl _)
  have hname : 2 + cmd.name.toList.length + 8 ≤ 32767 := by
    have hlen : (RemoteExecCommand.stringData cmd.name).length ≤ cmd.data.length := by
      rw [RemoteExecCommand.data, List.length_append]
      omega
    rw [stringData_length, asciiGetBytes_length] at hlen
    have := hcmd.size
    omega
  obtain ⟨trace, response, hrun, hsends, hstatus⟩ := exec_response world hbytes
    (hcmd.ascii cmd.name (by simp)) rfl hname hpid hresult
  obtain ⟨header, args, env, -, hrun'⟩ := handlerExec_returns world _ hbytes
  have htrace := congrArg Traced.events (hrun.symm.trans hrun')
  simp only at htrace
  refine ⟨trace, response, hrun, ?_, hsends, ?_, hstatus⟩
  · rw [htrace]
    simp only [spawnCalls_append, spawnCalls_reads, List.nil_append]
    rw [RemoteExecCommand.spawnCall, ← RemoteExecCommand.encoding_call hcmd.ascii hcmd.size]
    rfl
  · -- the length that was sent is an `int16_t`
    have hcalls : execSends trace = [(rexs, (cmd.encoding hcmd.size).response world,
        CLib.int16 (2 + (cmd.encoding hcmd.size).name.length + 2 * 4))] := by
      rw [htrace]
      simp only [execSends_append, execSends_reads, List.nil_append]
      rfl
    obtain ⟨hsent, -⟩ := List.cons.inj (hcalls.symm.trans hsends)
    obtain ⟨-, hsent⟩ := Prod.mk.inj hsent
    obtain ⟨-, hint⟩ := Prod.mk.inj hsent
    rw [CLib.int16, Int.bmod_def] at hint
    omega

/-- A table of ASCII command lines is a table of named processes. -/
theorem exists_named {table : List Proc}
    (hascii : ∀ p ∈ table, ∀ s ∈ p.cmdline, ∀ b ∈ s, b.toNat < 128) :
    ∃ ps : List NamedProcess, procEntries table = ps.map NamedProcess.entry ∧
      (procEntries table).map ProcEntry.info = ps.map NamedProcess.info := by
  induction table with
  | nil => exact ⟨[], rfl, rfl⟩
  | cons p rest ih =>
      obtain ⟨ps, hentries, hinfos⟩ := ih fun q hq => hascii q (List.mem_cons_of_mem _ hq)
      cases hcmd : p.cmdline with
      | none => exact ⟨ps, by rw [procEntries_cons_none hcmd, hentries],
          by rw [procEntries_cons_none hcmd, hinfos]⟩
      | some s =>
          have hlt := hascii p List.mem_cons_self s hcmd
          have hs := asciiGetBytes_getString hlt
          have hchars : ∀ c ∈ (asciiGetString s).toList, 1 ≤ c.toNat ∧ c.toNat ≤ 127 := by
            intro c hc
            simp only [asciiGetString, String.toList_ofList, List.mem_map] at hc
            obtain ⟨b, hb, rfl⟩ := hc
            have hb128 := hlt b hb
            have hpos : b.toNat ≠ 0 := fun h0 =>
              p.cmdline_ne_zero s hcmd b hb (UInt8.toNat_inj.mp h0)
            rw [if_pos hb128, toNat_ofNat_ascii hb128]
            omega
          refine ⟨⟨asciiGetString s, p.tid, hchars, p.tid_int32⟩ :: ps, ?_, ?_⟩
          · rw [procEntries_cons_some hcmd, hentries, List.map_cons, NamedProcess.entry, hs]
          · rw [procEntries_cons_some hcmd, List.map_cons, List.map_cons, hinfos]
            rfl

/-- `handler_proc` on a table that fits into its buffer. -/
theorem handlerProc_answer {world : HandlerWorld} (hworld : world.Tame) :
    ∃ trace data, (handlerProc world.stack world.table).Returns trace () ∧
      procSends trace = [(rprc, data, (data.length : Int))] ∧ data.length ≤ 32767 ∧
      handlerRemoteProcesses data = .ok world.processes := by
  have hfit := hworld.fits
  obtain ⟨ps, hentries, hinfos⟩ := exists_named hworld.ascii
  obtain ⟨writes, -, hrun⟩ := handlerProc_returns world.stack hfit
  refine ⟨_, CLib.writeInt32T (procEntries world.table).length ++
    entriesBytes (procEntries world.table), hrun, ?_, ?_, ?_⟩
  · rw [procSends_append, procSends_writes, List.nil_append, List.length_append,
      CLib.writeInt32T_length]
    rfl
  · rw [List.length_append, CLib.writeInt32T_length]
    omega
  · rw [HandlerWorld.processes, hinfos, hentries, List.length_map]
    exact handlerRemoteProcesses_entries ps (by rw [hentries] at hfit; omega)

/-- What handling a command has done to the server, and what it has sent. -/
structure Answered (world : HandlerWorld) (c : RemoteCommand) (sv sv' : RemoteServer)
    (out : List Outgoing) : Prop where
  printed : sv'.printed = sv.printed ++ c.prints
  spawned : sv'.spawned = sv.spawned ++ c.spawns
  faulted : sv'.faulted = sv.faulted
  sound : ∀ f ∈ out, f.Sound
  statuses : out.flatMap Outgoing.statuses = c.statuses world
  tables : out.flatMap Outgoing.tables = c.tables world

/-- A step of the pipe part touches nothing else. -/
theorem serve_frame {sv sv' : RemoteServer} {out : List Outgoing} {act : ServerAct}
    (h : sv.serve act = some (sv', out)) :
    ∃ sent, sv.pipes.step act = some (sv'.pipes, sent) ∧ sv' = { sv with pipes := sv'.pipes } ∧
      out = sent.toList.map Outgoing.pipe := by
  obtain ⟨⟨pipes, sent⟩, hstep, hres⟩ := Option.map_eq_some_iff.mp h
  cases hres
  exact ⟨sent, hstep, rfl, rfl⟩

theorem flatMap_pipe_statuses (frames : List PipeFrame) :
    (frames.map Outgoing.pipe).flatMap Outgoing.statuses = [] := by
  simp [Outgoing.statuses]

theorem flatMap_pipe_tables (frames : List PipeFrame) :
    (frames.map Outgoing.pipe).flatMap Outgoing.tables = [] := by
  simp [Outgoing.tables]

theorem processPacket_requestPipe (world : HandlerWorld) (sv : RemoteServer) (pipeName : String) :
    processPacket world sv (RemoteCommand.requestPipe pipeName).packet =
      sv.serve (.request (asciiGetBytes pipeName)) := by
  rw [processPacket, findHandler_packet]
  rfl

/-- A program the format can carry is started, and its status is sent. -/
theorem processPacket_exec {world : HandlerWorld} (hworld : world.Tame) {cmd : RemoteExecCommand}
    (hcmd : cmd.Fits) (sv : RemoteServer) :
    ∃ response, processPacket world sv (RemoteCommand.exec cmd).packet =
        some ({ sv with spawned := sv.spawned ++ [cmd.spawnCall] }, [.status ⟨rexs, response⟩]) ∧
      response.length ≤ 32767 ∧ handlerExecStatus response = .ok (cmd.status world.spawn) := by
  obtain ⟨trace, response, hrun, hspawns, hsends, hlength, hstatus⟩ :=
    handlerExec_answer hcmd world.spawn hworld.pid_int32 hworld.result_int32 world.behind
  have heffect := foldl_execEffect trace sv [] (by simp [hsends])
  rw [hspawns, hsends] at heffect
  refine ⟨response, ?_, hlength, hstatus⟩
  rw [processPacket, findHandler_packet]
  show some (runHandler execEffect sv (handlerExec world.spawn
    (world.behind.store 0 cmd.data) cmd.data.length)) = _
  rw [hrun, runHandler, heffect]
  simp [sentPackets]

/-- The process table is sent. -/
theorem processPacket_processes {world : HandlerWorld} (hworld : world.Tame) (sv : RemoteServer) :
    ∃ data, processPacket world sv RemoteCommand.processes.packet =
        some (sv, [.processes ⟨rprc, data⟩]) ∧
      data.length ≤ 32767 ∧ handlerRemoteProcesses data = .ok world.processes := by
  obtain ⟨trace, data, hrun, hsends, hlength, htable⟩ := handlerProc_answer hworld
  have heffect := foldl_procEffect trace sv [] (by simp [hsends])
  rw [hsends] at heffect
  refine ⟨data, ?_, hlength, htable⟩
  rw [processPacket, findHandler_packet]
  show some (runHandler procEffect sv (handlerProc world.stack world.table)) = _
  rw [hrun, runHandler, heffect]
  simp [sentPackets]

/-- Every command is answered as it is meant to be. -/
theorem processPacket_answered {world : HandlerWorld} (hworld : world.Tame) {c : RemoteCommand}
    (hc : c.Fits) {sv sv' : RemoteServer} {out : List Outgoing}
    (h : processPacket world sv c.packet = some (sv', out)) : Answered world c sv sv' out := by
  cases c with
  | echo message =>
      rw [processPacket, findHandler_packet] at h
      cases h
      exact ⟨rfl, by simp [RemoteCommand.spawns], rfl, by simp, rfl, rfl⟩
  | requestPipe pipeName =>
      rw [processPacket_requestPipe] at h
      obtain ⟨sent, -, hsv, rfl⟩ := serve_frame h
      rw [hsv]
      exact ⟨by simp [RemoteCommand.prints], by simp [RemoteCommand.spawns], rfl,
        by simp [Outgoing.Sound], flatMap_pipe_statuses _, flatMap_pipe_tables _⟩
  | exec cmd =>
      obtain ⟨response, hresult, hlength, hstatus⟩ := processPacket_exec hworld hc sv
      cases hresult.symm.trans h
      refine ⟨by simp [RemoteCommand.prints], rfl, rfl, ?_, ?_, rfl⟩
      · intro f hf
        rw [List.mem_singleton.mp hf]
        exact ⟨rfl, hlength, _, hstatus⟩
      · simp [Outgoing.statuses, RemoteCommand.statuses, hstatus, Except.toOption]
  | processes =>
      obtain ⟨data, hresult, hlength, htable⟩ := processPacket_processes hworld sv
      cases hresult.symm.trans h
      refine ⟨by simp [RemoteCommand.prints], by simp [RemoteCommand.spawns], rfl, ?_, rfl, ?_⟩
      · intro f hf
        rw [List.mem_singleton.mp hf]
        exact ⟨rfl, hlength, _, htable⟩
      · simp [Outgoing.tables, RemoteCommand.tables, htable, Except.toOption]

/-- The pipe part takes no notice of the other commands. -/
theorem processPacket_pipes {world : HandlerWorld} (hworld : world.Tame) {c : RemoteCommand}
    (hc : c.Fits) (hname : c.pipeName? = none) {sv sv' : RemoteServer} {out : List Outgoing}
    (h : processPacket world sv c.packet = some (sv', out)) :
    sv'.pipes = sv.pipes ∧ out.filterMap Outgoing.frame? = [] := by
  cases c with
  | echo message =>
      rw [processPacket, findHandler_packet] at h
      cases h
      exact ⟨rfl, rfl⟩
  | requestPipe pipeName => cases hname
  | exec cmd =>
      obtain ⟨response, hresult, -⟩ := processPacket_exec hworld hc sv
      cases hresult.symm.trans h
      exact ⟨rfl, rfl⟩
  | processes =>
      obtain ⟨data, hresult, -⟩ := processPacket_processes hworld sv
      cases hresult.symm.trans h
      exact ⟨rfl, rfl⟩

/-- A command other than a pipe request is handled at once. -/
theorem processPacket_isSome {world : HandlerWorld} (hworld : world.Tame) {c : RemoteCommand}
    (hc : c.Fits) (honce : c.atOnce = true) (sv : RemoteServer) :
    (processPacket world sv c.packet).isSome := by
  cases c with
  | echo message =>
      rw [processPacket, findHandler_packet]
      rfl
  | requestPipe pipeName => cases honce
  | exec cmd =>
      obtain ⟨response, hresult, -, -⟩ := processPacket_exec hworld hc sv
      rw [hresult]
      rfl
  | processes =>
      obtain ⟨data, hresult, -, -⟩ := processPacket_processes hworld sv
      rw [hresult]
      rfl

/-! ## The handlers of the client -/

/-- The part of a session that belongs to the pipe protocol. -/
def Session.pipes (s : Session RemoteClient) : Session PipeClient where
  dispatched := s.dispatched.filter fun d => d.1 ∈ ["RPIR", "RPIP", "RPIC"]
  console := s.console
  world := s.world.pipes

theorem remoteHandlers_pipe (f : PipeFrame) :
    remoteHandlers f.packet.decoded.1 = (pipeHandlers f.packet.decoded.1).map onPipes := by
  have hir : asciiGetString [0x52, 0x50, 0x49, 0x52] = "RPIR" := by decide
  have hip : asciiGetString [0x52, 0x50, 0x49, 0x50] = "RPIP" := by decide
  have hic : asciiGetString [0x52, 0x50, 0x49, 0x43] = "RPIC" := by decide
  cases f with
  | registered i => simp [PipeFrame.packet, Packet.decoded, hir, remoteHandlers, pipeHandlers,
      registerHandler]
  | data i chunk => simp [PipeFrame.packet, Packet.decoded, hip, remoteHandlers, pipeHandlers,
      registerHandler]
  | closed i => simp [PipeFrame.packet, Packet.decoded, hic, remoteHandlers, pipeHandlers,
      registerHandler]

theorem pipe_receiver (f : PipeFrame) : f.packet.decoded.1 ∈ ["RPIR", "RPIP", "RPIC"] := by
  have hir : asciiGetString [0x52, 0x50, 0x49, 0x52] = "RPIR" := by decide
  have hip : asciiGetString [0x52, 0x50, 0x49, 0x50] = "RPIP" := by decide
  have hic : asciiGetString [0x52, 0x50, 0x49, 0x43] = "RPIC" := by decide
  cases f with
  | registered i => simp [PipeFrame.packet, Packet.decoded, hir]
  | data i chunk => simp [PipeFrame.packet, Packet.decoded, hip]
  | closed i => simp [PipeFrame.packet, Packet.decoded, hic]

/-- A pipe frame does what it does in the pipe protocol, and nothing else. -/
theorem dispatchRemote_pipe {s : Session RemoteClient} {f : PipeFrame} {s' : Session PipeClient}
    (h : dispatchFrame s.pipes f = .ok s') :
    ∃ session, dispatchRemote s f.packet = .ok session ∧ session.pipes = s' ∧
      session.world.execStatus = s.world.execStatus ∧
      session.world.remoteProcessInfo = s.world.remoteProcessInfo := by
  have hmem := pipe_receiver f
  rw [dispatchFrame, dispatch] at h
  rw [dispatchRemote, dispatch, remoteHandlers_pipe]
  generalize f.packet.decoded = d at h hmem ⊢
  have hfilter : (s.dispatched ++ [(d.1, d.2)]).filter (fun d => d.1 ∈ ["RPIR", "RPIP", "RPIC"]) =
      s.pipes.dispatched ++ [(d.1, d.2)] := by
    rw [List.filter_append]
    simp only [Session.pipes]
    congr 1
    simpa using hmem
  cases hhandler : pipeHandlers d.1 with
  | none =>
      rw [hhandler] at h
      cases h
      refine ⟨_, rfl, ?_, rfl, rfl⟩
      simp only [Session.pipes, hfilter]
  | some handler =>
      rw [hhandler] at h
      simp only [Option.map_some, onPipes] at h ⊢
      rw [show s.pipes.world = s.world.pipes from rfl] at h
      cases hrun : handler s.world.pipes d.1 d.2 with
      | mk pipes raised =>
          rw [hrun] at h
          cases raised with
          | some raised => cases h
          | none =>
              cases h
              refine ⟨_, rfl, ?_, rfl, rfl⟩
              simp only [Session.pipes, hfilter]

/-- An answer of one of the handlers is raised as its event. -/
theorem dispatchRemote_answer {s : Session RemoteClient} {f : Outgoing} (hf : f.Sound)
    (hframe : f.frame? = none) :
    ∃ session, dispatchRemote s f.packet = .ok session ∧ session.pipes = s.pipes ∧
      session.world.execStatus = s.world.execStatus ++ f.statuses ∧
      session.world.remoteProcessInfo = s.world.remoteProcessInfo ++ f.tables := by
  have hexs : asciiGetString rexs = "REXS" := by decide
  have hprc : asciiGetString rprc = "RPRC" := by decide
  cases f with
  | pipe f => cases hframe
  | status p =>
      obtain ⟨hreceiver, -, status, hstatus⟩ := hf
      have hhandler : remoteHandlers "REXS" = some raiseExecStatus := by
        simp [remoteHandlers, registerHandler]
      refine ⟨⟨s.dispatched ++ [("REXS", p.data)], s.console,
        { s.world with execStatus := s.world.execStatus ++ [status] }⟩, ?_, ?_, ?_, ?_⟩
      · rw [dispatchRemote, Packet.decoded, Outgoing.packet, hreceiver, hexs, dispatch, hhandler]
        simp [raiseExecStatus, hstatus]
      · simp [Session.pipes]
      · simp [Outgoing.statuses, hstatus, Except.toOption]
      · simp [Outgoing.tables]
  | processes p =>
      obtain ⟨hreceiver, -, table, htable⟩ := hf
      have hhandler : remoteHandlers "RPRC" = some raiseRemoteProcessInfo := by
        simp [remoteHandlers, registerHandler]
      refine ⟨⟨s.dispatched ++ [("RPRC", p.data)], s.console,
        { s.world with remoteProcessInfo := s.world.remoteProcessInfo ++ [table] }⟩, ?_, ?_, ?_, ?_⟩
      · rw [dispatchRemote, Packet.decoded, Outgoing.packet, hreceiver, hprc, dispatch, hhandler]
        simp [raiseRemoteProcessInfo, htable]
      · simp [Session.pipes]
      · simp [Outgoing.statuses]
      · simp [Outgoing.tables, htable, Except.toOption]

/-! ## The bookkeeping between the two ends -/

/-- The handled commands, with what the handlers have met. -/
def RemoteNet.handled (s : RemoteNet) : List (RemoteCommand × HandlerWorld) := s.issued.zip s.worlds

/-- The packets on their way to the server, and the one still to be sent. -/
def RemoteNet.pending (s : RemoteNet) : List Packet :=
  s.requests ++ s.unsent.toList.map fun pipeName => (RemoteCommand.requestPipe pipeName).packet

/-- A run in which the commands fit their format, the server's world fits its
buffers and the ids of the pipes do not run out. -/
def TameStep (s : RemoteNet) : RemoteAct → Prop
  | .sendCommand c => c.Fits
  | .requestPipe pipeName => (RemoteCommand.requestPipe pipeName).Fits ∧
      (s.issued.filterMap RemoteCommand.pipeName?).length + 1 < 65536
  | .processPacket world => world.Tame
  | _ => True

/-- Everything but the pipes: the commands are handled in order, each has had its
effect once, and the packets on their way carry the answers in order. -/
structure RemoteInv (s : RemoteNet) : Prop where
  fits : ∀ c ∈ s.issued, c.Fits
  handled_le : s.worlds.length ≤ s.issued.length
  pending : s.pending = (s.issued.drop s.worlds.length).map RemoteCommand.packet
  faulted : s.server.faulted = false
  printed : s.server.printed = s.handled.flatMap fun d => d.1.prints
  spawned : s.server.spawned = s.handled.flatMap fun d => d.1.spawns
  sound : ∀ f ∈ s.received ++ s.incoming, f.Sound
  statuses : (s.received ++ s.incoming).flatMap Outgoing.statuses =
    s.handled.flatMap fun d => d.1.statuses d.2
  tables : (s.received ++ s.incoming).flatMap Outgoing.tables =
    s.handled.flatMap fun d => d.1.tables d.2
  client : ∀ session, s.client = .ok session →
    session.world.execStatus = s.received.flatMap Outgoing.statuses ∧
      session.world.remoteProcessInfo = s.received.flatMap Outgoing.tables

theorem zip_issue {α β : Type*} {l : List α} {m : List β} (h : m.length ≤ l.length) (c : α) :
    (l ++ [c]).zip m = l.zip m := by
  induction m generalizing l with
  | nil => simp
  | cons w m ih =>
      cases l with
      | nil => simp at h
      | cons d l => simp [ih (by simpa using h)]

theorem zip_handle {α β : Type*} {l : List α} {m : List β} {c : α} {rest : List α}
    (h : l.drop m.length = c :: rest) (w : β) : l.zip (m ++ [w]) = l.zip m ++ [(c, w)] := by
  induction m generalizing l with
  | nil =>
      rw [List.length_nil, List.drop_zero] at h
      simp [h]
  | cons v m ih =>
      cases l with
      | nil => simp at h
      | cons d l => simp [ih (by simpa using h)]

theorem RemoteInv.start (n0 : Int) : RemoteInv (.start n0) where
  fits := by simp [RemoteNet.start]
  handled_le := Nat.le_refl _
  pending := rfl
  faulted := rfl
  printed := rfl
  spawned := rfl
  sound := by simp [RemoteNet.start]
  statuses := rfl
  tables := rfl
  client := by
    rintro session ⟨⟩
    exact ⟨rfl, rfl⟩

/-- A command is issued; its packet is on its way, or still to be sent. -/
theorem RemoteInv.issue {s s' : RemoteNet} (h : RemoteInv s) {c : RemoteCommand} (hc : c.Fits)
    (hissued : s'.issued = s.issued ++ [c]) (hpending : s'.pending = s.pending ++ [c.packet])
    (hworlds : s'.worlds = s.worlds) (hserver : s'.server = s.server)
    (hincoming : s'.incoming = s.incoming) (hreceived : s'.received = s.received)
    (hclient : ∀ session', s'.client = .ok session' → ∃ session, s.client = .ok session ∧
      session'.world.execStatus = session.world.execStatus ∧
      session'.world.remoteProcessInfo = session.world.remoteProcessInfo) : RemoteInv s' := by
  have hhandled : s'.handled = s.handled := by
    rw [RemoteNet.handled, hissued, hworlds, zip_issue h.handled_le, RemoteNet.handled]
  refine ⟨?_, ?_, ?_, ?_, ?_, ?_, ?_, ?_, ?_, ?_⟩
  · rw [hissued]
    intro d hd
    rcases List.mem_append.mp hd with hd | hd
    · exact h.fits d hd
    · rw [List.mem_singleton.mp hd]
      exact hc
  · rw [hissued, hworlds, List.length_append]
    have := h.handled_le
    omega
  · rw [hpending, h.pending, hissued, hworlds, List.drop_append_of_le_length h.handled_le,
      List.map_append]
    rfl
  · rw [hserver, h.faulted]
  · rw [hserver, hhandled, h.printed]
  · rw [hserver, hhandled, h.spawned]
  · rw [hreceived, hincoming]
    exact h.sound
  · rw [hreceived, hincoming, hhandled, h.statuses]
  · rw [hreceived, hincoming, hhandled, h.tables]
  · intro session' hok
    obtain ⟨session, hok', hstatus, htables⟩ := hclient session' hok
    rw [hstatus, htables, hreceived]
    exact h.client session hok'

/-- The main loop handles the oldest command. -/
theorem RemoteInv.handle {s : RemoteNet} (h : RemoteInv s) {world : HandlerWorld}
    (hworld : world.Tame) {p : Packet} {rest : List Packet} (hrequests : s.requests = p :: rest)
    {sv : RemoteServer} {out : List Outgoing}
    (hresult : processPacket world s.server p = some (sv, out)) :
    ∃ c ∈ s.issued, p = c.packet ∧
      RemoteInv ({ s with requests := rest, worlds := s.worlds ++ [world] }.served (sv, out)) := by
  have hpending := h.pending
  rw [RemoteNet.pending, hrequests, List.cons_append] at hpending
  obtain ⟨c, later, hdrop, hpacket, hlater⟩ := List.map_eq_cons_iff.mp hpending.symm
  have hmem : c ∈ s.issued := List.mem_of_mem_drop (hdrop ▸ List.mem_cons_self)
  subst hpacket
  have hanswered := processPacket_answered hworld (h.fits c hmem) hresult
  have hlen : s.worlds.length < s.issued.length := by
    have hlength := congrArg List.length hdrop
    rw [List.length_drop, List.length_cons] at hlength
    omega
  have hhandled : s.issued.zip (s.worlds ++ [world]) = s.handled ++ [(c, world)] :=
    zip_handle hdrop world
  refine ⟨c, hmem, rfl, h.fits, ?_, ?_, ?_, ?_, ?_, ?_, ?_, ?_, h.client⟩
  · show (s.worlds ++ [world]).length ≤ s.issued.length
    rw [List.length_append]
    exact hlen
  · show rest ++ _ = (s.issued.drop (s.worlds ++ [world]).length).map RemoteCommand.packet
    rw [List.length_append, List.length_singleton, ← List.drop_drop, hdrop, List.drop_one,
      List.tail_cons, hlater]
    rfl
  · exact hanswered.faulted.trans h.faulted
  · show sv.printed = (s.issued.zip (s.worlds ++ [world])).flatMap fun d => d.1.prints
    rw [hhandled, List.flatMap_append, hanswered.printed, h.printed]
    simp
  · show sv.spawned = (s.issued.zip (s.worlds ++ [world])).flatMap fun d => d.1.spawns
    rw [hhandled, List.flatMap_append, hanswered.spawned, h.spawned]
    simp
  · intro f hf
    rw [RemoteNet.served, ← List.append_assoc] at hf
    exact (List.mem_append.mp hf).elim (h.sound f) (hanswered.sound f)
  · show (s.received ++ (s.incoming ++ out)).flatMap Outgoing.statuses =
      (s.issued.zip (s.worlds ++ [world])).flatMap fun d => d.1.statuses d.2
    rw [← List.append_assoc, List.flatMap_append, h.statuses, hanswered.statuses, hhandled,
      List.flatMap_append]
    simp
  · show (s.received ++ (s.incoming ++ out)).flatMap Outgoing.tables =
      (s.issued.zip (s.worlds ++ [world])).flatMap fun d => d.1.tables d.2
    rw [← List.append_assoc, List.flatMap_append, h.tables, hanswered.tables, hhandled,
      List.flatMap_append]
    simp

/-- A pipe thread is started or goes on. -/
theorem RemoteInv.serve {s : RemoteNet} (h : RemoteInv s) {act : ServerAct} {sv : RemoteServer}
    {out : List Outgoing} (hresult : s.server.serve act = some (sv, out)) :
    RemoteInv (s.served (sv, out)) := by
  obtain ⟨sent, -, hsv, rfl⟩ := serve_frame hresult
  have hserver : sv.faulted = s.server.faulted ∧ sv.printed = s.server.printed ∧
      sv.spawned = s.server.spawned := by
    rw [hsv]
    exact ⟨rfl, rfl, rfl⟩
  refine ⟨h.fits, h.handled_le, h.pending, hserver.1.trans h.faulted,
    hserver.2.1.trans h.printed, hserver.2.2.trans h.spawned, ?_, ?_, ?_, h.client⟩
  · intro f hf
    rw [RemoteNet.served, ← List.append_assoc] at hf
    rcases List.mem_append.mp hf with hf | hf
    · exact h.sound f hf
    · obtain ⟨frame, -, rfl⟩ := List.mem_map.mp hf
      trivial
  · show (s.received ++ (s.incoming ++ _)).flatMap Outgoing.statuses = _
    rw [← List.append_assoc, List.flatMap_append, h.statuses, flatMap_pipe_statuses,
      List.append_nil]
    rfl
  · show (s.received ++ (s.incoming ++ _)).flatMap Outgoing.tables = _
    rw [← List.append_assoc, List.flatMap_append, h.tables, flatMap_pipe_tables, List.append_nil]
    rfl

/-- The client dispatches the next packet. -/
theorem RemoteInv.receive {s : RemoteNet} (h : RemoteInv s) {f : Outgoing} {rest : List Outgoing}
    (hincoming : s.incoming = f :: rest) {session session' : Session RemoteClient}
    (hclient : s.client = .ok session)
    (hstatus : session'.world.execStatus = session.world.execStatus ++ f.statuses)
    (htables : session'.world.remoteProcessInfo = session.world.remoteProcessInfo ++ f.tables) :
    RemoteInv { s with
      incoming := rest, received := s.received ++ [f], client := .ok session' } := by
  have hwire : s.received ++ [f] ++ rest = s.received ++ s.incoming := by simp [hincoming]
  obtain ⟨hstatus₀, htables₀⟩ := h.client session hclient
  refine ⟨h.fits, h.handled_le, h.pending, h.faulted, h.printed, h.spawned, ?_, ?_, ?_, ?_⟩
  · show ∀ g ∈ s.received ++ [f] ++ rest, g.Sound
    rw [hwire]
    exact h.sound
  · show (s.received ++ [f] ++ rest).flatMap Outgoing.statuses = _
    rw [hwire, h.statuses]
    rfl
  · show (s.received ++ [f] ++ rest).flatMap Outgoing.tables = _
    rw [hwire, h.tables]
    rfl
  · rintro _ ⟨⟩
    rw [hstatus, htables, hstatus₀, htables₀]
    simp

/-! ## The pipe protocol inside -/

/-- The pipe part of a state. -/
structure PipeView (s : RemoteNet) (t : PipeNet) : Prop where
  issued : t.issued = s.issued.filterMap RemoteCommand.pipeName?
  unsent : t.unsent = s.unsent
  requests : t.requests = s.requests.filter fun p => p.receiver = asciiGetBytes "PIPE"
  server : t.server = s.server.pipes
  incoming : t.incoming = s.incoming.filterMap Outgoing.frame?
  received : t.received = s.received.filterMap Outgoing.frame?
  client : ∃ session, s.client = .ok session ∧ t.client = .ok session.pipes
  few : t.issued.length < 65536

/-- Both systems, and the rest of the bookkeeping. -/
def Tracks (s : RemoteNet) (t : PipeNet) : Prop := RemoteInv s ∧ PipeView s t

theorem receiver_eq_pipe (c : RemoteCommand) :
    decide (c.packet.receiver = asciiGetBytes "PIPE") = c.pipeName?.isSome := by
  have hecho : asciiGetBytes "ECHO" ≠ asciiGetBytes "PIPE" := by decide
  have hexec : asciiGetBytes "EXEC" ≠ asciiGetBytes "PIPE" := by decide
  have hproc : asciiGetBytes "PROC" ≠ asciiGetBytes "PIPE" := by decide
  cases c with
  | echo message =>
      rw [RemoteCommand.packet, RemoteCommand.receiver]
      exact decide_eq_false hecho
  | requestPipe pipeName =>
      rw [RemoteCommand.packet, RemoteCommand.receiver]
      exact decide_eq_true rfl
  | exec cmd =>
      rw [RemoteCommand.packet, RemoteCommand.receiver]
      exact decide_eq_false hexec
  | processes =>
      rw [RemoteCommand.packet, RemoteCommand.receiver]
      exact decide_eq_false hproc

theorem packet_requestPipe (pipeName : String) :
    (RemoteCommand.requestPipe pipeName).packet = requestPipeCommand pipeName := by
  rw [RemoteCommand.packet, RemoteCommand.receiver, RemoteCommand.data, requestPipeCommand]

theorem pipeName_atOnce {c : RemoteCommand} (h : c.atOnce = true) : c.pipeName? = none := by
  cases c with
  | requestPipe pipeName => cases h
  | _ => rfl

theorem filterMap_frame_pipe (frames : List PipeFrame) :
    (frames.map Outgoing.pipe).filterMap Outgoing.frame? = frames := by
  simp [List.filterMap_map, Function.comp_def, Outgoing.frame?]

variable {s s' : RemoteNet} {t : PipeNet}

theorem Tracks.sendCommand (h : Tracks s t) {c : RemoteCommand} (hc : c.Fits)
    (hstep : s.step (.sendCommand c) = some s') : Tracks s' t := by
  obtain ⟨hinv, hview⟩ := h
  simp only [RemoteNet.step] at hstep
  split at hstep
  · rename_i hunsent honce
    cases hstep
    have hname := pipeName_atOnce honce
    refine ⟨hinv.issue hc rfl ?_ rfl rfl rfl rfl fun session' h => ⟨session', h, rfl, rfl⟩, ?_⟩
    · simp [RemoteNet.pending, hunsent]
    · refine ⟨?_, hview.unsent, ?_, hview.server, hview.incoming, hview.received, hview.client,
        hview.few⟩
      · simp [hview.issued, hname]
      · have hne := receiver_eq_pipe c
        rw [hname] at hne
        rw [List.filter_append, List.filter_cons, hne, hview.requests]
        simp
  · cases hstep

theorem Tracks.requestPipe (h : Tracks s t) {pipeName : String}
    (hfits : (RemoteCommand.requestPipe pipeName).Fits)
    (hfew : (s.issued.filterMap RemoteCommand.pipeName?).length + 1 < 65536)
    (hstep : s.step (.requestPipe pipeName) = some s') :
    ∃ t', t.step (.requestPipe pipeName) = some t' ∧ Tracks s' t' := by
  obtain ⟨hinv, hview⟩ := h
  simp only [RemoteNet.step] at hstep
  split at hstep
  · rename_i session hunsent hclient
    cases hstep
    obtain ⟨session', hok, htclient⟩ := hview.client
    cases hok.symm.trans hclient
    have htunsent : t.unsent = none := hview.unsent.trans hunsent
    have htstep : t.step (.requestPipe pipeName) = some { t with
        issued := t.issued ++ [pipeName], unsent := some pipeName,
        client := .ok (session.pipes.enqueue pipeName) } := by
      simp only [PipeNet.step, htunsent, htclient]
    refine ⟨_, htstep, hinv.issue hfits rfl ?_ rfl rfl rfl rfl ?_, ?_⟩
    · simp [RemoteNet.pending, hunsent]
    · rintro _ ⟨⟩
      exact ⟨session, hclient, rfl, rfl⟩
    · refine ⟨?_, rfl, hview.requests, hview.server, hview.incoming, hview.received,
        ⟨_, rfl, rfl⟩, ?_⟩
      · simp [hview.issued, RemoteCommand.pipeName?]
      · show (t.issued ++ [pipeName]).length < 65536
        rw [List.length_append, hview.issued]
        exact hfew
  · cases hstep

theorem Tracks.sendRequest (h : Tracks s t) (hstep : s.step .sendRequest = some s') :
    ∃ t', t.step .sendCommand = some t' ∧ Tracks s' t' := by
  obtain ⟨hinv, hview⟩ := h
  simp only [RemoteNet.step] at hstep
  split at hstep
  · rename_i pipeName hunsent
    cases hstep
    have htstep : t.step .sendCommand = some { t with
        unsent := none, requests := t.requests ++ [requestPipeCommand pipeName] } := by
      simp only [PipeNet.step, hview.unsent.trans hunsent]
    have hpending := hinv.pending
    simp only [RemoteNet.pending, hunsent, Option.toList_some, List.map_cons, List.map_nil]
      at hpending
    refine ⟨_, htstep, ⟨hinv.fits, hinv.handled_le, ?_, hinv.faulted, hinv.printed, hinv.spawned,
      hinv.sound, hinv.statuses, hinv.tables, hinv.client⟩, ?_⟩
    · simpa [RemoteNet.pending] using hpending
    · refine ⟨hview.issued, rfl, ?_, hview.server, hview.incoming, hview.received, hview.client,
        hview.few⟩
      have hpipe := receiver_eq_pipe (.requestPipe pipeName)
      show t.requests ++ [requestPipeCommand pipeName] = _
      rw [List.filter_append, List.filter_cons, hpipe, hview.requests, packet_requestPipe]
      simp [RemoteCommand.pipeName?]
  · cases hstep

/-- A step of the pipe part is a step of the pipe protocol. -/
theorem PipeView.serve (hview : PipeView s t) {act : ServerAct} {sv : RemoteServer}
    {out : List Outgoing} (hresult : s.server.serve act = some (sv, out)) :
    ∃ t', t.serve act = some t' ∧ PipeView (s.served (sv, out)) t' := by
  obtain ⟨sent, hpipes, -, rfl⟩ := serve_frame hresult
  have htstep : t.serve act = some { t with
      server := sv.pipes, incoming := t.incoming ++ sent.toList } := by
    rw [PipeNet.serve, hview.server, hpipes]
    rfl
  refine ⟨_, htstep, hview.issued, hview.unsent, hview.requests, rfl, ?_, hview.received,
    hview.client, hview.few⟩
  show t.incoming ++ sent.toList = (s.incoming ++ _).filterMap Outgoing.frame?
  rw [List.filterMap_append, filterMap_frame_pipe, hview.incoming]

theorem Tracks.serve (h : Tracks s t) {act : ServerAct}
    (hstep : (s.server.serve act).map s.served = some s') :
    ∃ t', t.serve act = some t' ∧ Tracks s' t' := by
  obtain ⟨⟨sv, out⟩, hresult, rfl⟩ := Option.map_eq_some_iff.mp hstep
  obtain ⟨t', ht', hview⟩ := h.2.serve hresult
  exact ⟨t', ht', h.1.serve hresult, hview⟩

/-- A handled pipe request is one of the pipe protocol; it sees nothing of the
other commands. -/
theorem Tracks.processPacket (n0 : Int) (h : Tracks s t) {world : HandlerWorld} (hworld : world.Tame)
    (hstep : s.step (.processPacket world) = some s') :
    ∃ acts t', (pipeSystem n0).exec t acts = some t' ∧ Tracks s' t' := by
  obtain ⟨hinv, hview⟩ := h
  simp only [RemoteNet.step] at hstep
  split at hstep
  · rename_i p rest hrequests hstarting
    obtain ⟨⟨sv, out⟩, hresult, rfl⟩ := Option.map_eq_some_iff.mp hstep
    obtain ⟨c, hmem, rfl, hinv'⟩ := hinv.handle hworld hrequests hresult
    have hreceiver := receiver_eq_pipe c
    have htrequests := hview.requests
    rw [hrequests, List.filter_cons, hreceiver] at htrequests
    cases hname : c.pipeName? with
    | none =>
        rw [hname] at htrequests
        obtain ⟨hpipes, hout⟩ := processPacket_pipes hworld (hinv.fits c hmem) hname hresult
        refine ⟨[], t, rfl, hinv', hview.issued, hview.unsent, htrequests,
          hview.server.trans hpipes.symm, ?_, hview.received, hview.client, hview.few⟩
        show t.incoming = (s.incoming ++ out).filterMap Outgoing.frame?
        rw [List.filterMap_append, hout, List.append_nil, hview.incoming]
    | some pipeName =>
        rw [hname] at htrequests
        obtain rfl : c = .requestPipe pipeName := by
          cases c with
          | requestPipe other =>
              cases hname
              rfl
          | _ => cases hname
        rw [processPacket_requestPipe] at hresult
        have hview₀ : PipeView { s with requests := rest, worlds := s.worlds ++ [world] }
            { t with requests := rest.filter fun p => p.receiver = asciiGetBytes "PIPE" } :=
          ⟨hview.issued, hview.unsent, rfl, hview.server, hview.incoming, hview.received,
            hview.client, hview.few⟩
        obtain ⟨t', ht', hview'⟩ := hview₀.serve hresult
        refine ⟨[.handleRequest], t', TSys.exec_single ?_, hinv', hview'⟩
        show t.step .handleRequest = _
        simp only [PipeNet.step, htrequests, Option.isSome_some, if_true]
        rw [packet_requestPipe]
        exact ht'
  · cases hstep

/-- The client dispatches a frame as it does in the pipe protocol, where no handler
raises; the other answers are sound. -/
theorem Tracks.receive {n0 : Int} (h : Tracks s t) (ht : (pipeSystem n0).Reachable t)
    (hstep : s.step .receive = some s') :
    ∃ acts t', (pipeSystem n0).exec t acts = some t' ∧ Tracks s' t' := by
  obtain ⟨hinv, hview⟩ := h
  simp only [RemoteNet.step] at hstep
  split at hstep
  · rename_i f rest session hincoming hclient
    cases hstep
    obtain ⟨session', hok, htclient⟩ := hview.client
    cases hok.symm.trans hclient
    have htincoming := hview.incoming
    rw [hincoming, List.filterMap_cons] at htincoming
    cases hframe : f.frame? with
    | none =>
        rw [hframe] at htincoming
        have hsound : f.Sound := hinv.sound f (by simp [hincoming])
        obtain ⟨session', hdispatch, hpipes, hstatus, htables⟩ :=
          dispatchRemote_answer (s := session) hsound hframe
        have hinv' := hinv.receive hincoming hclient hstatus htables
        rw [hdispatch]
        refine ⟨[], t, rfl, hinv', hview.issued, hview.unsent, hview.requests, hview.server,
          htincoming, ?_, ⟨session', rfl, by rw [hpipes, htclient]⟩, hview.few⟩
        simp [hview.received, hframe]
    | some frame =>
        rw [hframe] at htincoming
        obtain rfl : f = .pipe frame := by
          cases f with
          | pipe other =>
              cases hframe
              rfl
          | _ => cases hframe
        have htstep : (pipeSystem n0).step t .receive = some { t with
            incoming := rest.filterMap Outgoing.frame?, received := t.received ++ [frame],
            client := dispatchFrame session.pipes frame } := by
          simp only [pipeSystem, PipeNet.step, htincoming, htclient]
        -- the pipe protocol says that the frame is dispatched without an exception
        obtain ⟨pipes, hpipes, -⟩ := (netInv_of_reachable (ht.next htstep) hview.few).client
        change dispatchFrame session.pipes frame = .ok pipes at hpipes
        obtain ⟨session', hdispatch, hview', hstatus, htables⟩ := dispatchRemote_pipe hpipes
        have hstatus' : session'.world.execStatus =
            session.world.execStatus ++ (Outgoing.pipe frame).statuses := by
          simp [hstatus, Outgoing.statuses]
        have htables' : session'.world.remoteProcessInfo =
            session.world.remoteProcessInfo ++ (Outgoing.pipe frame).tables := by
          simp [htables, Outgoing.tables]
        have hinv' := hinv.receive hincoming hclient hstatus' htables'
        rw [show (Outgoing.pipe frame).packet = frame.packet from rfl, hdispatch]
        refine ⟨[.receive], _, TSys.exec_single htstep, hinv', hview.issued, hview.unsent,
          hview.requests, hview.server, rfl, ?_, ⟨session', rfl, hpipes.trans (by rw [hview'])⟩,
          hview.few⟩
        simp [hview.received, Outgoing.frame?]
  · cases hstep

/-- The whole protocol simulates the pipe protocol. -/
theorem remote_simulation (n0 : Int) :
    TSys.Simulation (remoteSystem n0) (pipeSystem n0) TameStep Tracks where
  init := by
    rintro s rfl
    exact ⟨.start n0, rfl, RemoteInv.start n0, rfl, rfl, rfl, rfl, rfl, rfl, ⟨_, rfl, rfl⟩,
      by simp [PipeNet.start]⟩
  step := by
    intro s act s' t ht h hok hstep
    cases act with
    | sendCommand c => exact ⟨[], t, rfl, h.sendCommand hok hstep⟩
    | requestPipe pipeName =>
        obtain ⟨t', ht', h'⟩ := h.requestPipe hok.1 hok.2 hstep
        exact ⟨[.requestPipe pipeName], t', TSys.exec_single ht', h'⟩
    | sendRequest =>
        obtain ⟨t', ht', h'⟩ := h.sendRequest hstep
        exact ⟨[.sendCommand], t', TSys.exec_single ht', h'⟩
    | processPacket world => exact h.processPacket n0 hok hstep
    | startThread =>
        obtain ⟨t', ht', h'⟩ := h.serve hstep
        exact ⟨[.startThread], t', TSys.exec_single ht', h'⟩
    | thread k act =>
        obtain ⟨t', ht', h'⟩ := h.serve hstep
        exact ⟨[.thread k act], t', TSys.exec_single ht', h'⟩
    | receive => exact h.receive ht hstep

end InMemoryFuzzing.RemoteControl

import InMemoryFuzzing.RemoteControl.Theorems.Wire

/-!
# What the remote control protocol guarantees

`remote_control_agrees` — every program a client asks for is started once, in
the order of the requests, and what the client is told about it is what became
of it, whatever the pipe threads send in between. `pipes_undisturbed` — the pipe
protocol is a refinement step away: with all other commands around it, its part
of the state is one that it reaches alone.
-/

namespace InMemoryFuzzing.RemoteControl

open Base Platform DotNet

/-- Along every interleaving of commands that fit, where the process tables fit into the
buffer of the server: the requests arrive whole, the client raises no exception and no handler
of the server leaves its buffers. The programs started and the lines printed are those of
the commands handled, in order; the status and process events are the answers to
them, in order, as far as they have arrived; and nothing that was sent is lost. -/
theorem remote_control_agrees (n0 : Int) (s : RemoteNet)
    (hs : (remoteSystem n0).ReachableBy TameStep s) :
    ArriveWhole s.issued ∧ ∃ session, s.client = .ok session ∧ s.server.faulted = false ∧
      s.server.spawned = (s.issued.zip s.worlds).flatMap (fun d => d.1.spawns) ∧
      s.server.printed = (s.issued.zip s.worlds).flatMap (fun d => d.1.prints) ∧
      session.world.execStatus <+: (s.issued.zip s.worlds).flatMap (fun d => d.1.statuses d.2) ∧
      session.world.remoteProcessInfo <+:
        (s.issued.zip s.worlds).flatMap (fun d => d.1.tables d.2) ∧
      (s.incoming = [] →
        session.world.execStatus = (s.issued.zip s.worlds).flatMap (fun d => d.1.statuses d.2) ∧
        session.world.remoteProcessInfo =
          (s.issued.zip s.worlds).flatMap (fun d => d.1.tables d.2)) ∧
      (s.requests = [] → s.unsent = none → s.worlds.length = s.issued.length) := by
  obtain ⟨t, -, hinv, hview⟩ := (remote_simulation n0).reachable hs
  obtain ⟨session, hclient, -⟩ := hview.client
  obtain ⟨hstatus, htables⟩ := hinv.client session hclient
  refine ⟨arriveWhole hinv.fits, session, hclient, hinv.faulted, hinv.spawned, hinv.printed,
    ?_, ?_, ?_, ?_⟩
  · rw [hstatus]
    show _ <+: s.handled.flatMap _
    rw [← hinv.statuses, List.flatMap_append]
    exact List.prefix_append _ _
  · rw [htables]
    show _ <+: s.handled.flatMap _
    rw [← hinv.tables, List.flatMap_append]
    exact List.prefix_append _ _
  · intro hincoming
    have hstatuses := hinv.statuses
    have htables' := hinv.tables
    rw [hincoming, List.append_nil] at hstatuses htables'
    exact ⟨hstatus.trans hstatuses, htables.trans htables'⟩
  · intro hrequests hunsent
    have hlen := congrArg List.length hinv.pending
    simp only [RemoteNet.pending, hrequests, hunsent, Option.toList_none, List.map_nil,
      List.append_nil, List.length_nil, List.length_map, List.length_drop] at hlen
    have := hinv.handled_le
    omega

/-- A command with an argument. -/
def listTmp : RemoteExecCommand := ⟨"ls", "/bin/ls", ["/tmp"], []⟩

/-- `posix_spawn` returns 0 and process 42; one process is running. -/
def calmWorld : HandlerWorld where
  spawn := ⟨fun _ => false, fun _ => 0, 0, 42⟩
  behind := fun _ => 0
  stack := fun _ => 0
  table := [dashEqual.proc]

theorem calmWorld_tame : calmWorld.Tame where
  pid_int32 := by simp [calmWorld]
  result_int32 := by simp [calmWorld]
  ascii := by decide +kernel
  fits := by decide

theorem listTmp_fits : listTmp.Fits where
  ascii := by simp [listTmp]
  size := by decide

/-- A program and the process table; both answers arrive. -/
def askBoth : List RemoteAct :=
  [.sendCommand (.exec listTmp), .sendCommand .processes, .processPacket calmWorld, .receive,
    .processPacket calmWorld, .receive]

theorem remote_control_agrees_ls :
    ∃ s session, (remoteSystem 0).exec (.start 0) askBoth = some s ∧ s.client = .ok session ∧
      s.server.spawned = [listTmp.spawnCall] ∧ session.world.execStatus = [⟨"ls", 42, 0⟩] := by
  obtain ⟨s, hs, hissued, hworlds, hincoming⟩ : ∃ s,
      (remoteSystem 0).exec (.start 0) askBoth = some s ∧
      s.issued = [.exec listTmp, .processes] ∧ s.worlds = [calmWorld, calmWorld] ∧
      s.incoming = [] := ⟨_, rfl, rfl, rfl, rfl⟩
  have hok : ∀ a ∈ askBoth, ∀ s, TameStep s a := by
    simp [askBoth, TameStep, calmWorld_tame, RemoteCommand.Fits, RemoteCommand.data, listTmp_fits]
  obtain ⟨-, session, hclient, -, hspawned, -, -, -, hall, -⟩ :=
    remote_control_agrees 0 s (TSys.ReachableBy.exec _ (.init rfl) hok hs)
  rw [hissued, hworlds] at hspawned hall
  exact ⟨s, session, hs, hclient, hspawned, (hall hincoming).1⟩

/-- Whatever else is on the connection that fits, the pipe part of every state is one the pipe
protocol reaches alone: with the same requests, the same server, the same frames in
both directions, and a client with the same tables and the same pipe events. -/
theorem pipes_undisturbed (n0 : Int) (s : RemoteNet)
    (hs : (remoteSystem n0).ReachableBy TameStep s) :
    ∃ session t, s.client = .ok session ∧ (pipeSystem n0).Reachable t ∧
      t.issued = s.issued.filterMap RemoteCommand.pipeName? ∧ t.unsent = s.unsent ∧
      t.requests = s.requests.filter (fun p => p.receiver = asciiGetBytes "PIPE") ∧
      t.server = s.server.pipes ∧ t.incoming = s.incoming.filterMap Outgoing.frame? ∧
      t.received = s.received.filterMap Outgoing.frame? ∧ t.client = .ok session.pipes := by
  obtain ⟨t, ht, -, hview⟩ := (remote_simulation n0).reachable hs
  obtain ⟨session, hclient, htclient⟩ := hview.client
  exact ⟨session, t, hclient, ht, hview.issued, hview.unsent, hview.requests, hview.server,
    hview.incoming, hview.received, htclient⟩

/-- A program is started while a pipe is open. -/
def execBesidePipe : List RemoteAct :=
  [.sendRequest, .sendCommand (.exec listTmp), .processPacket calmWorld, .startThread,
    .thread 0 .opens, .thread 0 (.read [1, 2]), .processPacket calmWorld, .thread 0 .send,
    .receive, .receive, .receive]

theorem pipes_undisturbed_log :
    ∃ s t, (remoteSystem 7).exec (.start 7) (.requestPipe "log" :: execBesidePipe) = some s ∧
      s.received.length = 3 ∧ (pipeSystem 7).Reachable t ∧ t.issued = ["log"] ∧
      t.received = [.registered 7, .data 7 [1, 2]] := by
  obtain ⟨s₁, hs₁⟩ : ∃ s, (remoteSystem 7).step (.start 7) (.requestPipe "log") = some s := ⟨_, rfl⟩
  obtain ⟨s, hs, hissued, hlength, hreceived⟩ : ∃ s,
      (remoteSystem 7).exec s₁ execBesidePipe = some s ∧
      s.issued = [.requestPipe "log", .exec listTmp] ∧ s.received.length = 3 ∧
      s.received.filterMap Outgoing.frame? = [.registered 7, .data 7 [1, 2]] := by
    cases hs₁
    exact ⟨_, rfl, rfl, rfl, rfl⟩
  have hlog : (RemoteCommand.requestPipe "log").Fits := by
    show (asciiGetBytes "log").length ≤ 9990
    decide
  have hfits : TameStep (.start 7) (.requestPipe "log") := ⟨hlog, by simp [RemoteNet.start]⟩
  have hfirst : (remoteSystem 7).ReachableBy TameStep s₁ := .step (.init rfl) hfits hs₁
  have hok : ∀ a ∈ execBesidePipe, ∀ s, TameStep s a := by
    simp [execBesidePipe, TameStep, calmWorld_tame, RemoteCommand.Fits, listTmp_fits]
  obtain ⟨-, t, -, ht, htissued, -, -, -, -, htreceived, -⟩ :=
    pipes_undisturbed 7 s (TSys.ReachableBy.exec _ hfirst hok hs)
  rw [hissued] at htissued
  refine ⟨s, t, ?_, hlength, ht, htissued, htreceived.trans hreceived⟩
  show ((remoteSystem 7).step _ _).bind _ = _
  rw [hs₁]
  exact hs

end InMemoryFuzzing.RemoteControl

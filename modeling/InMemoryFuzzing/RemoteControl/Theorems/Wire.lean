import InMemoryFuzzing.RemoteControl.RemoteLogic
import InMemoryFuzzing.RemoteControl.RunLogic
import InMemoryFuzzing.RemoteControl.Theorems.Client

/-!
# From a list of commands to the events, byte by byte

`remoteSystem` moves whole packets. Here the packets are the bytes of the two
connections: `SendPacket` writes them, `receive_packet_loop` takes them from
reads of any sizes, the handlers answer through `send_packet`, and `CBRead`
takes the answers from chunks of any sizes.
-/

namespace InMemoryFuzzing.RemoteControl

open Base Platform DotNet

/-- The packet the client sends for a command. -/
def RemoteCommand.clientPacket (c : RemoteCommand) (h : c.Fits) : ClientPacket where
  receiver := c.receiver
  data := c.data
  receiver_length := by cases c <;> simp [RemoteCommand.receiver]
  receiver_ascii := by cases c <;> simp [RemoteCommand.receiver]
  data_le := h.data_le

theorem RemoteCommand.clientPacket_packet {c : RemoteCommand} (h : c.Fits) :
    (c.clientPacket h).packet = c.packet := by
  rw [ClientPacket.packet, RemoteCommand.packet]
  rfl

/-- However the kernel cuts what `SendPacket` has written for the commands into reads,
the main loop is handed their packets. -/
def ArriveWhole (commands : List RemoteCommand) : Prop :=
  ∃ packets sent, packets.map ClientPacket.packet = commands.map RemoteCommand.packet ∧
    sendAll packets = .ok sent ∧
    ∀ (choices : Nat → Nat) (buffer : RecvBuffer) (fuel : Nat), 10001 + sent.length < fuel →
      ∃ t, receivePacketLoop fuel choices buffer 0 sent = some t ∧ t.returned = true ∧
        t.handed = commands.map RemoteCommand.packet

/-- Packets of the client are handed to the main loop one by one. -/
theorem packets_handed (packets : List ClientPacket) (choices : Nat → Nat) (buffer : RecvBuffer)
    {fuel : Nat} (hfuel : 10001 + (stream (gapless (packets.map ClientPacket.packet)) []).length < fuel) :
    ∃ t, receivePacketLoop fuel choices buffer 0
        (stream (gapless (packets.map ClientPacket.packet)) []) = some t ∧
      t.returned = true ∧ t.handed = packets.map ClientPacket.packet := by
  have hwf : ∀ s ∈ gapless (packets.map ClientPacket.packet), s.Wf 9990 := by
    refine gapless_wf ?_
    intro p hp
    obtain ⟨packet, _, rfl⟩ := List.mem_map.mp hp
    exact packet.wf
  have hroomy : Roomy (gapless (packets.map ClientPacket.packet)) [] := by
    refine ⟨?_, by simp⟩
    intro s hs
    obtain ⟨p, _, rfl⟩ := List.mem_map.mp hs
    simp
  obtain ⟨t, hrun, hret, hhanded, -⟩ := run_delivers _ choices buffer 0 _ _ (Nat.le_refl _)
    (Waiting.start buffer hwf (by simp [magic])) hroomy fuel hfuel
  refine ⟨t, hrun, hret, ?_⟩
  rw [hhanded, gapless_packets, List.map_map]
  refine List.map_congr_left fun packet _ => ?_
  show cPacket packet.packet = packet.packet
  exact cPacket_eq packet.wf.receiver_length packet.receiver_ne_zero

theorem arriveWhole {commands : List RemoteCommand} (h : ∀ c ∈ commands, c.Fits) :
    ArriveWhole commands := by
  obtain ⟨packets, hpackets⟩ : ∃ packets : List ClientPacket,
      packets.map ClientPacket.packet = commands.map RemoteCommand.packet := by
    refine ⟨commands.attach.map fun c => c.1.clientPacket (h c.1 c.2), ?_⟩
    rw [List.map_map]
    conv => rhs; rw [← List.attach_map_subtype_val commands, List.map_map]
    exact List.map_congr_left fun c _ => RemoteCommand.clientPacket_packet (h c.1 c.2)
  refine ⟨packets, _, hpackets, sendAll_eq packets, fun choices buffer fuel hfuel => ?_⟩
  rw [← hpackets]
  exact packets_handed packets choices buffer hfuel

/-- A command other than a pipe request, and what its handler will meet. -/
structure Order where
  command : RemoteCommand
  world : HandlerWorld
  fits : command.Fits
  at_once : command.atOnce = true
  tame : world.Tame

def Order.clientPacket (o : Order) : ClientPacket := o.command.clientPacket o.fits

/-- The main loop on the packets it is handed, one after the other. -/
def processPackets (sv : RemoteServer) :
    List (Packet × HandlerWorld) → Option (RemoteServer × List Outgoing)
  | [] => some (sv, [])
  | (p, world) :: rest => do
      let (sv, out) ← processPacket world sv p
      let (sv, more) ← processPackets sv rest
      return (sv, out ++ more)

/-- What the main loop does with the packets of the commands. -/
theorem processPackets_orders (orders : List Order) (sv : RemoteServer) :
    ∃ sv' out, processPackets sv (orders.map fun o => (o.command.packet, o.world)) =
        some (sv', out) ∧
      sv'.spawned = sv.spawned ++ orders.flatMap (fun o => o.command.spawns) ∧
      sv'.printed = sv.printed ++ orders.flatMap (fun o => o.command.prints) ∧
      sv'.faulted = sv.faulted ∧ sv'.pipes = sv.pipes ∧
      (∀ f ∈ out, f.Sound ∧ f.frame? = none) ∧
      out.flatMap Outgoing.statuses = orders.flatMap (fun o => o.command.statuses o.world) ∧
      out.flatMap Outgoing.tables = orders.flatMap (fun o => o.command.tables o.world) := by
  induction orders generalizing sv with
  | nil => exact ⟨sv, [], rfl, by simp, by simp, rfl, rfl, by simp, rfl, rfl⟩
  | cons o rest ih =>
      have hname := pipeName_atOnce o.at_once
      obtain ⟨⟨sv₁, out₁⟩, hfirst⟩ :=
        Option.isSome_iff_exists.mp (processPacket_isSome o.tame o.fits o.at_once sv)
      have hanswered := processPacket_answered o.tame o.fits hfirst
      obtain ⟨hpipes, hframes⟩ := processPacket_pipes o.tame o.fits hname hfirst
      obtain ⟨sv', out, hrest, hspawned, hprinted, hfaulted, hpipes', hsound, hstatuses, htables⟩ :=
        ih sv₁
      refine ⟨sv', out₁ ++ out, ?_, ?_, ?_, hfaulted.trans hanswered.faulted,
        hpipes'.trans hpipes, ?_, ?_, ?_⟩
      · rw [List.map_cons, processPackets, hfirst]
        show (processPackets sv₁ _ >>= fun _ => _) = _
        rw [hrest]
        rfl
      · rw [hspawned, hanswered.spawned, List.flatMap_cons, List.append_assoc]
      · rw [hprinted, hanswered.printed, List.flatMap_cons, List.append_assoc]
      · intro f hf
        rcases List.mem_append.mp hf with hf | hf
        · exact ⟨hanswered.sound f hf, List.filterMap_eq_nil_iff.mp hframes f hf⟩
        · exact hsound f hf
      · rw [List.flatMap_append, hanswered.statuses, hstatuses, List.flatMap_cons]
      · rw [List.flatMap_append, hanswered.tables, htables, List.flatMap_cons]

/-- An answer is the packet of a call of `send_packet`. -/
theorem exists_sendArgs {out : List Outgoing} (h : ∀ f ∈ out, f.Sound ∧ f.frame? = none) :
    ∃ calls : List SendArgs, calls.map SendArgs.packet = out.map Outgoing.packet := by
  induction out with
  | nil => exact ⟨[], rfl⟩
  | cons f rest ih =>
      obtain ⟨calls, hcalls⟩ := ih fun g hg => h g (List.mem_cons_of_mem _ hg)
      have hcall : ∃ call : SendArgs, call.packet = f.packet := by
        obtain ⟨hsound, hframe⟩ := h f List.mem_cons_self
        cases f with
        | pipe frame => cases hframe
        | status p =>
            refine ⟨⟨p.receiver, p.data, ?_, ?_, hsound.2.1⟩, rfl⟩
            · rw [hsound.1]
              rfl
            · rw [hsound.1]
              simp [rexs]
        | processes p =>
            refine ⟨⟨p.receiver, p.data, ?_, ?_, hsound.2.1⟩, rfl⟩
            · rw [hsound.1]
              rfl
            · rw [hsound.1]
              simp [rprc]
      obtain ⟨call, hcall⟩ := hcall
      exact ⟨call :: calls, by rw [List.map_cons, List.map_cons, hcall, hcalls]⟩

/-- The client's handlers on the answers, one after the other. -/
theorem dispatchAll_answers {out : List Outgoing} (h : ∀ f ∈ out, f.Sound ∧ f.frame? = none)
    (s : Session RemoteClient) :
    ∃ session, dispatchAll remoteHandlers s (out.map Outgoing.packet) = .ok session ∧
      session.pipes = s.pipes ∧
      session.world.execStatus = s.world.execStatus ++ out.flatMap Outgoing.statuses ∧
      session.world.remoteProcessInfo =
        s.world.remoteProcessInfo ++ out.flatMap Outgoing.tables := by
  induction out generalizing s with
  | nil => exact ⟨s, rfl, rfl, by simp, by simp⟩
  | cons f rest ih =>
      obtain ⟨hsound, hframe⟩ := h f List.mem_cons_self
      obtain ⟨s₁, hfirst, hpipes₁, hstatus₁, htables₁⟩ :=
        dispatchRemote_answer (s := s) hsound hframe
      obtain ⟨session, hrest, hpipes, hstatus, htables⟩ :=
        ih (fun g hg => h g (List.mem_cons_of_mem _ hg)) s₁
      refine ⟨session, ?_, hpipes.trans hpipes₁, ?_, ?_⟩
      · rw [List.map_cons, dispatchAll, List.foldlM_cons]
        rw [dispatchRemote] at hfirst
        rw [hfirst]
        exact hrest
      · rw [hstatus, hstatus₁, List.flatMap_cons, List.append_assoc]
      · rw [htables, htables₁, List.flatMap_cons, List.append_assoc]

/-- **Commands over the wire.** For every list of commands, every way in which the
kernel cuts the requests and the network cuts the answers: the server starts the
programs and prints the lines of the commands, in order, without undefined
behaviour, and the client raises one event for each answer, in order, and keeps
nothing in its buffer. -/
theorem commands_over_the_wire (orders : List Order) (choices : Nat → Nat) (buffer : RecvBuffer)
    (sv : RemoteServer) (s : Session RemoteClient) :
    ∃ sent, sendAll (orders.map Order.clientPacket) = .ok sent ∧
      ∀ fuel, 10001 + sent.length < fuel →
      ∃ t sv' out calls, receivePacketLoop fuel choices buffer 0 sent = some t ∧
        t.returned = true ∧
        processPackets sv (t.handed.zip (orders.map Order.world)) = some (sv', out) ∧
        sv'.spawned = sv.spawned ++ orders.flatMap (fun o => o.command.spawns) ∧
        sv'.printed = sv.printed ++ orders.flatMap (fun o => o.command.prints) ∧
        sv'.faulted = sv.faulted ∧ sv'.pipes = sv.pipes ∧
        calls.map SendArgs.packet = out.map Outgoing.packet ∧
        ∀ chunks, Cut (sentByServer calls) chunks →
          ∃ session, receive remoteHandlers ⟨[], s⟩ chunks = .ok ⟨[], session⟩ ∧
            session.pipes = s.pipes ∧
            session.world.execStatus =
              s.world.execStatus ++ orders.flatMap (fun o => o.command.statuses o.world) ∧
            session.world.remoteProcessInfo =
              s.world.remoteProcessInfo ++ orders.flatMap (fun o => o.command.tables o.world) := by
  have hpackets : (orders.map Order.clientPacket).map ClientPacket.packet =
      orders.map fun o => o.command.packet := by
    rw [List.map_map]
    exact List.map_congr_left fun o _ => RemoteCommand.clientPacket_packet o.fits
  refine ⟨_, sendAll_eq (orders.map Order.clientPacket), fun fuel hfuel => ?_⟩
  obtain ⟨t, hrun, hret, hhanded⟩ := packets_handed _ choices buffer hfuel
  obtain ⟨sv', out, hprocess, hspawned, hprinted, hfaulted, hpipes, hout, hstatuses, htables⟩ :=
    processPackets_orders orders sv
  obtain ⟨calls, hcalls⟩ := exists_sendArgs hout
  refine ⟨t, sv', out, calls, hrun, hret, ?_, hspawned, hprinted, hfaulted, hpipes, hcalls, ?_⟩
  · rw [hhanded, hpackets, List.zip_map', hprocess]
  · intro chunks hcut
    obtain ⟨session, hdispatch, hsession, hstatus, htable⟩ := dispatchAll_answers hout s
    refine ⟨session, ?_, hsession, by rw [hstatus, hstatuses], by rw [htable, htables]⟩
    have hwf : ∀ p ∈ calls.map SendArgs.packet, p.Wf 32767 := by
      intro p hp
      obtain ⟨call, _, rfl⟩ := List.mem_map.mp hp
      exact call.wf
    have hdrain := drain_frames (by omega : 4 ≤ 5) (Nat.le_add_right 5 5) hwf
    rw [receive_cut remoteHandlers s hcut, sentByServer_eq, clientFraming, hdrain, finish, hcalls,
      hdispatch]
    rfl

end InMemoryFuzzing.RemoteControl

import InMemoryFuzzing.Base.Locked
import InMemoryFuzzing.RemoteControl.StreamLogic

/-!
# The two senders

`RemoteControlProtocol.SendPacket` on the client and `send_packet` on the
server. The server's is kept as its list of `write` calls: they are separate
steps when several threads send.
-/

namespace InMemoryFuzzing.RemoteControl

open Base Platform

/-! ## The client's `SendPacket` -/

/-- The bytes `SendPacket (receiver, data)` writes to the connection. -/
def sendPacketClient (receiver : String) (data : List UInt8) :
    Except DotNet.NetException (List UInt8) :=
  let receiverBytes := DotNet.asciiGetBytes receiver
  if receiverBytes.length ≠ 4 then
    .error (.argument "4 bytes receiver expected")
  else
    .ok (DotNet.asciiGetBytes "FUZZ" ++ receiverBytes ++
      DotNet.getBytesUInt16 (data.length % 2 ^ 16) ++ data)

/-- A packet as the protocol header documents it: a receiver of four characters,
data of at most 10K-10 bytes. -/
structure ClientPacket where
  receiver : String
  data : List UInt8
  receiver_length : receiver.toList.length = 4
  receiver_ascii : ∀ c ∈ receiver.toList, 0 < c.toNat ∧ c.toNat < 128
  data_le : data.length ≤ 9990

/-- The same packet as bytes. -/
def ClientPacket.packet (p : ClientPacket) : Packet := ⟨DotNet.asciiGetBytes p.receiver, p.data⟩

theorem ClientPacket.wf (p : ClientPacket) : p.packet.Wf 9990 :=
  ⟨by simp [ClientPacket.packet, DotNet.asciiGetBytes, p.receiver_length], p.data_le⟩

theorem ClientPacket.receiver_ne_zero (p : ClientPacket) : ∀ b ∈ p.packet.receiver, b ≠ 0 := by
  intro b hb
  obtain ⟨c, hc, rfl⟩ := List.mem_map.mp hb
  obtain ⟨hpos, hlt⟩ := p.receiver_ascii c hc
  rw [if_pos hlt]
  intro hzero
  have := congrArg UInt8.toNat hzero
  rw [UInt8.toNat_ofNat'] at this
  simp only [UInt8.toNat_zero] at this
  omega

/-- `SendPacket` writes exactly the frame. -/
theorem sendPacketClient_eq (p : ClientPacket) :
    sendPacketClient p.receiver p.data = .ok (frame p.packet) := by
  have hlen : (DotNet.asciiGetBytes p.receiver).length = 4 := p.wf.receiver_length
  have hdata := p.data_le
  have hmagic : DotNet.asciiGetBytes "FUZZ" = magic := by decide
  have hmod : p.data.length % 2 ^ 16 % 2 ^ 16 = p.data.length := by omega
  simp only [sendPacketClient]
  rw [if_neg (by omega), hmagic, DotNet.getBytesUInt16, hmod]
  rfl

/-- The bytes of a sequence of `SendPacket` calls. -/
def sendAll (packets : List ClientPacket) : Except DotNet.NetException (List UInt8) :=
  (packets.mapM fun p => sendPacketClient p.receiver p.data).map List.flatten

/-- Segments without gaps. -/
def gapless (packets : List Packet) : List Segment := packets.map fun p => ⟨[], p⟩

theorem stream_gapless (packets : List Packet) :
    stream (gapless packets) [] = (packets.map frame).flatten := by
  induction packets with
  | nil => rfl
  | cons p rest ih =>
      show [] ++ (frame p ++ stream (gapless rest) []) = _
      rw [ih]
      rfl

theorem gapless_packets (packets : List Packet) :
    (gapless packets).map Segment.packet = packets := by
  simp [gapless, Function.comp_def]

theorem gapless_wf {packets : List Packet} {maxData : Nat} (h : ∀ p ∈ packets, p.Wf maxData) :
    ∀ s ∈ gapless packets, s.Wf maxData := by
  intro s hs
  obtain ⟨p, hp, rfl⟩ := List.mem_map.mp hs
  exact ⟨h p hp, by simp [magic]⟩

theorem sendAll_eq (packets : List ClientPacket) :
    sendAll packets = .ok (stream (gapless (packets.map ClientPacket.packet)) []) := by
  rw [stream_gapless, List.map_map]
  have hmap : (packets.mapM fun p => sendPacketClient p.receiver p.data) =
      .ok (packets.map (frame ∘ ClientPacket.packet)) := by
    induction packets with
    | nil => rfl
    | cons p rest ih =>
        rw [List.mapM_cons, sendPacketClient_eq, ih]
        rfl
  rw [sendAll, hmap]
  rfl

/-! ## The server's `send_packet` -/

/-- The buffers `send_packet` passes to `write`, in order. A receiver whose
`strlen` is not 4 ends the process before anything is written. -/
def sendPacketServer (receiver data : List UInt8) : Option (List (List UInt8)) :=
  if CLib.strlen receiver ≠ 4 then none
  else some [magic, receiver.take 4, CLib.writeInt16T data.length, data]

/-- Arguments of a `send_packet` call: a C string of length 4 and data whose
length is a non-negative `int16_t`. -/
structure SendArgs where
  receiver : List UInt8
  data : List UInt8
  receiver_length : receiver.length = 4
  receiver_ne_zero : ∀ b ∈ receiver, b ≠ 0
  data_le : data.length ≤ 32767

/-- The packet sent. -/
def SendArgs.packet (a : SendArgs) : Packet := ⟨a.receiver, a.data⟩

theorem SendArgs.wf (a : SendArgs) : a.packet.Wf 32767 := ⟨a.receiver_length, a.data_le⟩

/-- The writes of a call. -/
def SendArgs.writes (a : SendArgs) : List (List UInt8) :=
  (sendPacketServer a.receiver a.data).getD []

/-- A receiver of length 4 passes the check. -/
theorem SendArgs.sendPacketServer_eq (a : SendArgs) :
    sendPacketServer a.receiver a.data = some a.writes := by
  have hlen : CLib.strlen a.receiver = 4 := by
    have hall : a.receiver.takeWhile (· ≠ 0) = a.receiver := by
      rw [List.takeWhile_eq_self_iff]
      intro b hb
      simpa using a.receiver_ne_zero b hb
    rw [CLib.strlen, hall, a.receiver_length]
  rw [SendArgs.writes, sendPacketServer, if_neg (by omega)]
  rfl

/-- The four writes of a call are its frame. -/
theorem SendArgs.writes_flatten (a : SendArgs) : a.writes.flatten = frame a.packet := by
  have hreceiver : a.receiver.take 4 = a.receiver :=
    List.take_of_length_le (by rw [a.receiver_length])
  have hwrites := a.sendPacketServer_eq
  rw [sendPacketServer] at hwrites
  split at hwrites
  · cases hwrites
  · rw [← Option.some.inj hwrites]
    simp [hreceiver, CLib.writeInt16T_natCast, frame, SendArgs.packet]

/-- The bytes of a sequence of `send_packet` calls. -/
def sentByServer (calls : List SendArgs) : List UInt8 :=
  (calls.map fun call => call.writes.flatten).flatten

theorem sentByServer_eq (calls : List SendArgs) :
    sentByServer calls = ((calls.map SendArgs.packet).map frame).flatten := by
  rw [sentByServer, List.map_map]
  congr 1
  apply List.map_congr_left
  intro call _
  exact call.writes_flatten

/-- The server's threads on one socket: thread `t` makes the `send_packet` calls
of `program t`. A step is the `pthread_mutex_lock`, one `write` (which writes
all it is given) or the `pthread_mutex_unlock` of one thread. -/
def socketSystem {τ : Type*} [DecidableEq τ] (program : τ → List SendArgs) :
    TSys (Locked.State τ SendArgs UInt8) τ :=
  Locked.system SendArgs.writes program

end InMemoryFuzzing.RemoteControl

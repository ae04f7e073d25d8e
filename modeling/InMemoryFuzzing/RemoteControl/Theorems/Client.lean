import InMemoryFuzzing.RemoteControl.ClientProtocol
import InMemoryFuzzing.RemoteControl.Sender

/-!
# What the client's receiver guarantees

`client_receive_independent` — what is dispatched and what stays in `_buffer` is
a function of the byte stream alone, not of how `EndRead` cut it; and a stream
of frames that the server wrote is dispatched as its packets.
-/

namespace InMemoryFuzzing.RemoteControl

open Base Platform DotNet

variable {σ : Type*}

/-- Chunks as `EndRead` returns them before the end of the stream: the read
buffer has 1000 bytes. -/
structure Cut (stream : List UInt8) (chunks : List (List UInt8)) : Prop where
  flatten : chunks.flatten = stream
  sizes : ∀ chunk ∈ chunks, 1 ≤ chunk.length ∧ chunk.length ≤ 1000

/-- No handler raises. -/
def Handlers.Return (handlers : Handlers σ) : Prop :=
  ∀ receiver handler, handlers receiver = some handler →
    ∀ world data, (handler world receiver data).2 = none

theorem receive_cut (handlers : Handlers σ) (s : Session σ) {stream : List UInt8}
    {chunks : List (List UInt8)} (h : Cut stream chunks) :
    receive handlers ⟨[], s⟩ chunks = finish handlers s (clientFraming.drain stream) := by
  have hne : ∀ chunk ∈ chunks, chunk ≠ [] := by
    intro chunk hchunk
    exact List.length_pos_iff.mp (h.sizes chunk hchunk).1
  rw [receive_eq handlers chunks hne [] s rfl, List.nil_append, h.flatten]

theorem dispatch_returns {handlers : Handlers σ} (hret : handlers.Return) (s : Session σ)
    (receiver : String) (data : List UInt8) :
    ∃ s', dispatch handlers s receiver data = .ok s' ∧
      s'.dispatched = s.dispatched ++ [(receiver, data)] := by
  unfold dispatch
  cases hh : handlers receiver with
  | none => exact ⟨_, rfl, rfl⟩
  | some handler =>
      have hnone := hret receiver handler hh s.world data
      cases hw : handler s.world receiver data with
      | mk world raised =>
          rw [hw] at hnone
          cases hnone
          simp only [hw]
          exact ⟨_, rfl, rfl⟩

theorem dispatchAll_returns {handlers : Handlers σ} (hret : handlers.Return)
    (packets : List Packet) (s : Session σ) :
    ∃ s', dispatchAll handlers s packets = .ok s' ∧
      s'.dispatched = s.dispatched ++ packets.map Packet.decoded := by
  induction packets generalizing s with
  | nil => exact ⟨s, rfl, by simp⟩
  | cons p rest ih =>
      obtain ⟨s₁, hs₁, hd₁⟩ := dispatch_returns hret s p.decoded.1 p.decoded.2
      obtain ⟨s₂, hs₂, hd₂⟩ := ih s₁
      refine ⟨s₂, ?_, by rw [hd₂, hd₁, List.map_cons, List.append_assoc]; rfl⟩
      rw [dispatchAll, List.foldlM_cons, hs₁]
      exact hs₂

/-- However a stream without located negative length is cut, the same packets
are dispatched and the same bytes are kept; if the server sent the stream, the
packets are those it sent and nothing is kept. Dispatching is complete as long
as no handler raises. -/
theorem client_receive_independent (handlers : Handlers σ) (s : Session σ) :
    (∀ stream, ¬ LocatesNegative 5 stream → ∃ packets kept, ∀ chunks, Cut stream chunks →
      receive handlers ⟨[], s⟩ chunks =
        (dispatchAll handlers s packets).map (ClientState.mk kept)) ∧
    (∀ calls chunks, Cut (sentByServer calls) chunks →
      receive handlers ⟨[], s⟩ chunks =
        (dispatchAll handlers s (calls.map SendArgs.packet)).map (ClientState.mk [])) ∧
    (handlers.Return → ∀ packets, ∃ s', dispatchAll handlers s packets = .ok s' ∧
      s'.dispatched = s.dispatched ++ packets.map Packet.decoded) := by
  have hfinish : ∀ packets kept, finish handlers s ⟨packets, some kept⟩ =
      (dispatchAll handlers s packets).map (ClientState.mk kept) := by
    intro packets kept
    simp only [finish]
    cases dispatchAll handlers s packets with
    | error crash => rfl
    | ok s' => rfl
  refine ⟨?_, ?_, fun hret packets => dispatchAll_returns hret packets s⟩
  · intro stream hclean
    rw [← drain_kept_eq_none (by omega), ← ne_eq, Option.ne_none_iff_exists'] at hclean
    obtain ⟨kept, hkept⟩ := hclean
    refine ⟨(clientFraming.drain stream).items, kept, ?_⟩
    intro chunks hcut
    rw [receive_cut handlers s hcut, ← hfinish, ← hkept]
    rfl
  · intro calls chunks hcut
    have hwf : ∀ p ∈ calls.map SendArgs.packet, p.Wf 32767 := by
      intro p hp
      obtain ⟨call, _, rfl⟩ := List.mem_map.mp hp
      exact call.wf
    have hdrain := drain_frames (by omega : 4 ≤ 5) (Nat.le_add_right 5 5) hwf
    rw [receive_cut handlers s hcut, sentByServer_eq, clientFraming, hdrain, hfinish]

/-- A stray `F`, then an empty `ECHO` frame. -/
def strayThenEcho : List UInt8 :=
  [0x46, 0x46, 0x55, 0x5A, 0x5A, 0x45, 0x43, 0x48, 0x4F, 0x00, 0x00]

private theorem strayThenEcho_clean : ¬ LocatesNegative 5 strayThenEcho := by
  have hl : locate magic 5 strayThenEcho = some 1 := by decide
  intro h
  cases h with
  | here hl' _ hneg =>
      rw [hl] at hl'
      cases hl'
      exact absurd hneg (by decide)
  | @later _ i n hl' hn _ hrest =>
      rw [hl] at hl'
      cases hl'
      have hzero : lengthField (strayThenEcho.drop 1) = 0 := by decide
      obtain rfl : n = 0 := by omega
      have hnone : locate magic 5 ((strayThenEcho.drop 1).drop (headerSize + 0)) = none := by
        decide
      cases hrest with
      | here hl' _ _ => rw [hnone] at hl'; cases hl'
      | later hl' _ _ _ => rw [hnone] at hl'; cases hl'

/-- A server call that echoes nothing. -/
def echoCall : SendArgs := ⟨[0x45, 0x43, 0x48, 0x4F], [], rfl, by simp, by decide⟩

/-- The stray byte and a cut inside the magic word; and a frame of the server
cut behind its magic word. -/
theorem client_receive_independent_echo :
    let s : Session Unit := ⟨[], [], ()⟩
    let handlers : Handlers Unit := registerHandler (fun _ => none) "ECHO" fun w _ _ => (w, none)
    (∃ packets kept, ∀ chunks ∈ [[strayThenEcho], [strayThenEcho.take 3, strayThenEcho.drop 3]],
      receive handlers ⟨[], s⟩ chunks =
        (dispatchAll handlers s packets).map (ClientState.mk kept)) ∧
    receive handlers ⟨[], s⟩ [(sentByServer [echoCall]).take 4, (sentByServer [echoCall]).drop 4] =
      (dispatchAll handlers s [echoCall.packet]).map (ClientState.mk []) ∧
    ∃ s', dispatchAll handlers s [echoCall.packet] = .ok s' ∧ s'.dispatched = [("ECHO", [])] := by
  intro s handlers
  obtain ⟨hany, hserver, hreturn⟩ := client_receive_independent handlers s
  refine ⟨?_, ?_, ?_⟩
  · obtain ⟨packets, kept, hall⟩ := hany strayThenEcho strayThenEcho_clean
    refine ⟨packets, kept, ?_⟩
    intro chunks hchunks
    simp only [List.mem_cons, List.not_mem_nil, or_false] at hchunks
    rcases hchunks with rfl | rfl
    · exact hall _ ⟨by simp, by decide⟩
    · exact hall _ ⟨by simp, by decide⟩
  · exact hserver [echoCall] _ ⟨by simp, by decide⟩
  · have hret : handlers.Return := by
      intro receiver handler hh world data
      simp only [handlers, registerHandler] at hh
      split at hh
      · cases hh; rfl
      · cases hh
    exact hreturn hret [echoCall.packet]

end InMemoryFuzzing.RemoteControl

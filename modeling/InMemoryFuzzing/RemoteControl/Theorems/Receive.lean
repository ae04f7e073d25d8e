import InMemoryFuzzing.RemoteControl.RunLogic
import InMemoryFuzzing.RemoteControl.Sender

/-!
# What the server's receiver guarantees

* `client_packets_delivered` — the frames the client writes arrive as the
  packets they were made from, however the kernel cuts the stream.
* `scan_safe_iff` — the scan over the buffer terminates and stays in bounds
  exactly when it locates no negative length field.
* `resync_iff` — bytes between packets are skipped exactly as long as they leave
  room for the magic word behind them: the buffer is only emptied at a magic
  word, and a full buffer makes `read` return 0.
-/

namespace InMemoryFuzzing.RemoteControl

open Base Platform

/-! ## Framing between client and server -/

/-- The packets written by the client are handed to `process_packet` in order,
each once, for every way of cutting the byte stream; no read is for 0 bytes. -/
theorem client_packets_delivered (packets : List ClientPacket) (choices : Nat → Nat)
    (buffer : RecvBuffer) :
    ∃ sent, sendAll packets = .ok sent ∧ ∀ fuel, 10001 + sent.length < fuel →
      ∃ t, receivePacketLoop fuel choices buffer 0 sent = some t ∧ t.returned = true ∧
        t.handed = packets.map ClientPacket.packet ∧
        ∀ call ∈ t.reads, 0 < call.request := by
  refine ⟨_, sendAll_eq packets, ?_⟩
  intro fuel hfuel
  set segs := gapless (packets.map ClientPacket.packet) with hsegs
  have hwf : ∀ s ∈ segs, s.Wf 9990 := by
    refine gapless_wf ?_
    intro p hp
    obtain ⟨q, _, rfl⟩ := List.mem_map.mp hp
    exact q.wf
  have hroomy : Roomy segs [] := by
    refine ⟨?_, by simp⟩
    intro s hs
    obtain ⟨p, _, rfl⟩ := List.mem_map.mp hs
    simp
  obtain ⟨t, hrun, hret, hhanded, hreads⟩ := run_delivers _ choices buffer 0 (stream segs [])
    segs (Nat.le_refl _) (Waiting.start buffer hwf (by simp [magic])) hroomy fuel hfuel
  refine ⟨t, hrun, hret, ?_, fun call hcall => hreads call hcall (Or.inr (by simp))⟩
  rw [hhanded, hsegs, gapless_packets, List.map_map]
  apply List.map_congr_left
  intro p _
  exact cPacket_eq p.wf.receiver_length p.receiver_ne_zero

/-! ## The scan on arbitrary bytes -/

/-- The scan of a buffer filled up to `w` terminates without fault, with every
access in bounds and no negative length handed on, and does not move the write
position up. -/
def ScanSafe (buffer : RecvBuffer) (w : Nat) : Prop :=
  ∃ fuel events s, scanRun fuel (.at buffer w 0) = some (events, some s) ∧
    (∀ e ∈ events, e.InBounds) ∧ 0 ≤ s.writePos ∧ s.writePos ≤ w

theorem not_scanSafe_of_negative {buffer : RecvBuffer} {w : Nat} (hw : w ≤ 10000)
    (h : LocatesNegative 4 (buffer.filled w)) : ¬ ScanSafe buffer w := by
  rintro ⟨fuel, events, s, hrun, hin, _⟩
  obtain ⟨e, he, hbad⟩ := scanRun_negative hw h hrun
  exact hbad (hin e he)

/-- The scan is safe exactly when no located length field is negative. -/
theorem scan_safe_iff (buffer : RecvBuffer) (w : Nat) (hw : w ≤ 10000) :
    ScanSafe buffer w ↔ ¬ LocatesNegative 4 (buffer.filled w) := by
  refine ⟨fun hsafe hneg => not_scanSafe_of_negative hw hneg hsafe, ?_⟩
  intro hclean
  rw [← drain_kept_eq_none (by omega), ← ne_eq, Option.ne_none_iff_exists'] at hclean
  obtain ⟨kept, hkept⟩ := hclean
  obtain ⟨events, s, hrun, hpos, _, hle, hin, _⟩ := scanRun_drain hw hkept
  exact ⟨w + 1, events, s, hrun _ (by omega), hin, by omega, by omega⟩

/-- A header for `ECHO` that announces -10 bytes, alone in the buffer. -/
def negativeHeader : RecvBuffer where
  bytes := [0x46, 0x55, 0x5A, 0x5A, 0x45, 0x43, 0x48, 0x4F, 0xF6, 0xFF] ++ List.replicate 9991 0
  size := by rw [List.length_append, List.length_replicate]; rfl

private theorem negativeHeader_filled :
    negativeHeader.filled 10 = [0x46, 0x55, 0x5A, 0x5A, 0x45, 0x43, 0x48, 0x4F, 0xF6, 0xFF] :=
  List.take_left' rfl

private theorem negativeHeader_located : LocatesNegative 4 (negativeHeader.filled 10) := by
  rw [negativeHeader_filled]
  exact .here (i := 0) (by decide) (by decide) (by decide)

/-- One byte short of the header, the same buffer is safe. -/
theorem scan_safe_iff_truncated : 9 ≤ 10000 ∧ ScanSafe negativeHeader 9 := by
  refine ⟨by simp, (scan_safe_iff negativeHeader 9 (by omega)).mpr ?_⟩
  have hshort : ∀ i, ((negativeHeader.filled 9).drop i).length < headerSize := by
    intro i
    rw [List.length_drop, filled_length negativeHeader (by omega), headerSize]
    omega
  intro h
  cases h with
  | @here _ i _ hlen _ =>
      have := hshort i
      omega
  | @later _ i _ _ hlen _ =>
      have := hshort i
      omega

/-- With a length of -10 the packet is 0 bytes long: it is handed on with a
negative length and the scan restarts on the same bytes, for ever. -/
theorem scan_unsafe_negativeHeader : ¬ ScanSafe negativeHeader 10 ∧
    ∀ fuel, scanRun fuel (.at negativeHeader 10 0) = none := by
  refine ⟨not_scanSafe_of_negative (by omega) negativeHeader_located, ?_⟩
  have hcopy : negativeHeader.copyToStart 0 10 = some negativeHeader := by
    have hsame : (negativeHeader.bytes.drop 0).take 10 ++ negativeHeader.bytes.drop 10 =
        negativeHeader.bytes := by rw [List.drop_zero, List.take_append_drop]
    rw [RecvBuffer.copyToStart, dif_pos (by simp)]
    exact congrArg some (by cases h : negativeHeader; simp_all)
  have hbody : (scanBody (.at negativeHeader 10 0)).2 = .next (.at negativeHeader 10 0) := by
    have hfound : foundMagic (.at negativeHeader 10 0) =
        ([.load 8, .load 9] ++ (extractPacket negativeHeader 0 (-10) ++ [.copyToStart 0 10]),
          .next (.at negativeHeader 10 0)) := by
      have h8 : negativeHeader.load (0 + 8) = some 0xF6 := rfl
      have h9 : negativeHeader.load (0 + 9) = some 0xFF := rfl
      have hlen : CLib.readInt16T 0xF6 0xFF = -10 := by decide
      simp only [foundMagic, Scan.at, Nat.cast_zero, h8, h9, hlen, takePacket]
      norm_num
      rw [hcopy]
      exact ⟨rfl, rfl⟩
    rw [scanBody_true rfl, hfound]
  intro fuel
  induction fuel with
  | zero => rfl
  | succ fuel ih =>
      rw [scanRun, if_pos (by decide), hbody]
      simp only [ih, Option.map_none]

/-! ## Resynchronisation -/

/-- A segment the client could have sent: the receiver is a C string of length
4, the data fits, and there is no magic word in front of it. -/
structure Segment.Valid (s : Segment) : Prop extends s.Wf 9990 where
  receiver_ne_zero : ∀ b ∈ s.packet.receiver, b ≠ 0

/-- The loop delivers every packet of the stream, in order and once, and no
read with input left is for 0 bytes. -/
def DeliversAll (segs : List Segment) (tail : List UInt8) (choices : Nat → Nat)
    (buffer : RecvBuffer) : Prop :=
  ∃ fuel t, receivePacketLoop fuel choices buffer 0 (stream segs tail) = some t ∧
    t.handed = segs.map Segment.packet ∧
    ∀ call ∈ t.reads, call.unread ≠ [] → 0 < call.request

theorem not_deliversAll_of_stalling {segs : List Segment} {tail : List UInt8}
    (hwf : ∀ s ∈ segs, s.Wf 9990) (hclean : ¬ magic <:+: tail) (hstall : Stalling segs tail)
    (choices : Nat → Nat) (buffer : RecvBuffer) : ¬ DeliversAll segs tail choices buffer := by
  rintro ⟨fuel, t, hrun, _, hreads⟩
  obtain ⟨t', hrun', call, hcall, hne, hzero⟩ := run_stalls _ choices buffer 0 (stream segs tail)
    segs (Nat.le_refl _) (Waiting.start buffer hwf hclean) hstall
    (10002 + (stream segs tail).length + fuel) (by omega)
  -- the run is the same for every sufficient fuel
  rw [Nat.cast_zero, receivePacketLoop_mono hrun (10002 + (stream segs tail).length)] at hrun'
  cases hrun'
  have := hreads call hcall hne
  omega

/-- Every packet is delivered, however the stream is cut, exactly when each gap
before a packet has at most 9996 bytes and the tail at most 10000. -/
theorem resync_iff (segs : List Segment) (tail : List UInt8) (choices : Nat → Nat)
    (buffer : RecvBuffer) (hvalid : ∀ s ∈ segs, s.Valid) (hclean : ¬ magic <:+: tail) :
    DeliversAll segs tail choices buffer ↔
      (∀ s ∈ segs, s.gap.length ≤ 9996) ∧ tail.length ≤ 10000 := by
  have hwf : ∀ s ∈ segs, s.Wf 9990 := fun s hs => (hvalid s hs).toWf
  constructor
  · intro hall
    by_contra hnot
    exact not_deliversAll_of_stalling hwf hclean ((not_roomy_iff segs tail).mp hnot)
      choices buffer hall
  · intro hroomy
    obtain ⟨t, hrun, _, hhanded, hreads⟩ := run_delivers _ choices buffer 0 (stream segs tail)
      segs (Nat.le_refl _) (Waiting.start buffer hwf hclean) hroomy _ (Nat.lt_succ_self _)
    refine ⟨_, t, hrun, ?_, fun call hcall hne => hreads call hcall (Or.inl hne)⟩
    rw [hhanded, List.map_map]
    apply List.map_congr_left
    intro s hs
    exact cPacket_eq (hvalid s hs).packet.receiver_length (hvalid s hs).receiver_ne_zero

/-- An empty `ECHO` packet behind `n` zero bytes. -/
def echoBehind (n : Nat) : Segment := ⟨List.replicate n 0, ⟨[0x45, 0x43, 0x48, 0x4F], []⟩⟩

private theorem echoBehind_gap_length (n : Nat) : (echoBehind n).gap.length = n :=
  List.length_replicate

private theorem echoBehind_valid (n : Nat) : (echoBehind n).Valid where
  packet := ⟨rfl, by simp [echoBehind]⟩
  gap_clean := by
    intro h
    have hmem : (0x46 : UInt8) ∈ List.replicate n (0 : UInt8) := h.subset (by simp [magic])
    exact absurd (List.eq_of_mem_replicate hmem) (by simp)
  receiver_ne_zero := by
    show ∀ b ∈ ([0x45, 0x43, 0x48, 0x4F] : List UInt8), b ≠ 0
    simp

/-- The longest gap that is skipped, with one byte per read. -/
theorem resync_iff_longest_gap : (∀ s ∈ [echoBehind 9996], s.Valid) ∧ ¬ magic <:+: [] ∧
    DeliversAll [echoBehind 9996] [] (fun _ => 1) negativeHeader := by
  have hvalid : ∀ s ∈ [echoBehind 9996], s.Valid := by
    intro s hs
    rw [List.mem_singleton.mp hs]
    exact echoBehind_valid 9996
  have hclean : ¬ magic <:+: [] := by simp [magic]
  refine ⟨hvalid, hclean, (resync_iff _ _ _ _ hvalid hclean).mpr ⟨?_, by simp⟩⟩
  intro s hs
  rw [List.mem_singleton.mp hs, echoBehind_gap_length]

/-- Behind one more byte the packet is lost and the connection is dropped. -/
theorem resync_fails : (∀ s ∈ [echoBehind 9997], s.Valid) ∧ ¬ magic <:+: [] ∧
    ¬ DeliversAll [echoBehind 9997] [] (fun _ => 10000) negativeHeader := by
  have hvalid : ∀ s ∈ [echoBehind 9997], s.Valid := by
    intro s hs
    rw [List.mem_singleton.mp hs]
    exact echoBehind_valid 9997
  have hclean : ¬ magic <:+: [] := by simp [magic]
  refine ⟨hvalid, hclean, not_deliversAll_of_stalling (fun s hs => (hvalid s hs).toWf) hclean
    (Or.inl ⟨_, List.mem_singleton_self _, ?_⟩) _ _⟩
  rw [echoBehind_gap_length]
  decide

end InMemoryFuzzing.RemoteControl

import InMemoryFuzzing.RemoteControl.ScanLogic
import InMemoryFuzzing.RemoteControl.StreamLogic

/-!
# Runs of the receive loop

Between two reads the buffer holds a part of the stream in which the next
packet is not complete (`Waiting`). `loop_step` is one iteration of the loop on
such a state, in terms of `drain`. Two inductions over the reads follow: if every
gap leaves room for the magic word behind it, the loop is never without room and
delivers everything (`run_delivers`); if one does not, the loop ends up asking
`read` for nothing while input remains (`run_stalls`).
-/

namespace InMemoryFuzzing.RemoteControl

open Base Platform

/-! ## One iteration -/

/-- The bytes of a read end up behind the filled part. -/
theorem store_filled (buffer : RecvBuffer) {w : Nat} {chunk : List UInt8}
    (h : w + chunk.length ≤ 10000) :
    ∃ stored, buffer.store w (chunk ++ [0]) = some stored ∧
      stored.filled (w + chunk.length) = buffer.filled w ++ chunk := by
  have hsize := buffer.size
  have hlen : (buffer.bytes.take w).length = w := by rw [List.length_take]; omega
  have hroom : 0 ≤ (w : Int) ∧ (w : Int) + (chunk ++ [0]).length ≤ 10001 := by
    rw [List.length_append, List.length_singleton]
    omega
  rw [RecvBuffer.store, dif_pos hroom]
  refine ⟨_, rfl, ?_⟩
  simp only [RecvBuffer.filled, Int.toNat_natCast]
  rw [← List.append_assoc, List.append_assoc]
  exact List.take_left' (by rw [List.length_append, hlen])

theorem readCount_le (request : Int) (available choice : Nat) :
    readCount request available choice ≤ request.toNat ∧
      readCount request available choice ≤ available := by
  unfold readCount
  omega

theorem readCount_pos {request : Int} {available : Nat} (hr : 0 < request)
    (ha : 0 < available) (choice : Nat) : 0 < readCount request available choice := by
  unfold readCount
  omega

variable {buffer : RecvBuffer} {w : Nat} {unread : List UInt8} {choices : Nat → Nat}

/-- A read that returns nothing ends the loop. -/
theorem loop_closed (h : readCount (10000 - w) unread.length (choices 0) = 0) (fuel : Nat) :
    receivePacketLoop (fuel + 1) choices buffer w unread =
      some ⟨[⟨10000 - w, unread⟩], [], true⟩ := by
  rw [receivePacketLoop]
  simp only [h, Nat.lt_irrefl, if_false, gt_iff_lt]

/-- A read that returns bytes drains the buffer with them. -/
theorem loop_step {n : Nat} (hn : readCount (10000 - w) unread.length (choices 0) = n)
    (hpos : 0 < n) {items : List Packet} {kept : List UInt8}
    (hdrain : serverFraming.drain (buffer.filled w ++ unread.take n) = ⟨items, some kept⟩) :
    ∃ rest, rest.filled kept.length = kept ∧ kept.length ≤ w + n ∧
      ∀ fuel, 10000 < fuel → receivePacketLoop (fuel + 1) choices buffer w unread =
        (receivePacketLoop fuel (fun k => choices (k + 1)) rest kept.length
          (unread.drop n)).map (Transcript.after ⟨10000 - w, unread⟩ (items.map cPacket)) := by
  obtain ⟨hreq, havail⟩ := readCount_le (10000 - w) unread.length (choices 0)
  rw [hn] at hreq havail
  have hchunk : (unread.take n).length = n := by rw [List.length_take]; omega
  obtain ⟨stored, hstore, hfilled⟩ :=
    store_filled buffer (by omega : w + (unread.take n).length ≤ 10000)
  rw [hchunk] at hfilled
  obtain ⟨events, s, hrun, hwp, hkept, hle, _, hhanded⟩ :=
    scanRun_drain (by omega : w + n ≤ 10000)
      (show (serverFraming.drain (stored.filled (w + n))).kept = some kept by
        rw [hfilled, hdrain])
  rw [hfilled, hdrain] at hhanded
  refine ⟨s.buffer, hkept, hle, ?_⟩
  intro fuel hfuel
  have hscan : scanRun fuel ⟨stored, w + n, 0⟩ = some (events, some s) := by
    have := hrun fuel (by omega)
    simpa [Scan.at] using this
  rw [receivePacketLoop]
  simp only [hn, gt_iff_lt, hpos, if_true, hstore, hscan, hwp, hhanded]

/-! ## The state between two reads -/

/-- The buffer holds a part of `stream ahead tail` without its first packet. -/
structure Waiting (buffer : RecvBuffer) (w : Nat) (unread : List UInt8)
    (ahead : List Segment) (tail : List UInt8) : Prop where
  bound : w ≤ 10000
  split : buffer.filled w ++ unread = stream ahead tail
  stuck : Stuck 4 (buffer.filled w) ahead
  wf : ∀ s ∈ ahead, s.Wf 9990
  clean : ¬ magic <:+: tail

variable {ahead : List Segment} {tail : List UInt8}

/-- With nothing unread, no packet is ahead. -/
theorem Waiting.ahead_nil (h : Waiting buffer w [] ahead tail) : ahead = [] := by
  have hsplit := h.split
  rw [List.append_nil] at hsplit
  cases ahead with
  | nil => rfl
  | cons s more =>
      have hstuck := h.stuck
      rw [hsplit] at hstuck
      have hframe := frame_length (h.wf s List.mem_cons_self).packet.receiver_length
      simp only [Stuck, stream, List.length_append, headerSize] at hstuck hframe
      rcases hstuck with hlt | ⟨_, hlt⟩ <;> omega

/-- An iteration that reads something keeps the state, and records what it
took. -/
theorem Waiting.step (h : Waiting buffer w unread ahead tail) {n : Nat}
    (hn : readCount (10000 - w) unread.length (choices 0) = n) (hpos : 0 < n) :
    ∃ taken ahead' rest w', Waiting rest w' (unread.drop n) ahead' tail ∧
      Progress 4 (buffer.filled w ++ unread.take n) ahead ahead' taken ∧
      (buffer.filled w ++ unread.take n).length ≤ 10000 ∧
      ∀ fuel, 10000 < fuel → receivePacketLoop (fuel + 1) choices buffer w unread =
        (receivePacketLoop fuel (fun k => choices (k + 1)) rest w' (unread.drop n)).map
          (Transcript.after ⟨10000 - w, unread⟩ (taken.map cPacket)) := by
  obtain ⟨hreq, havail⟩ := readCount_le (10000 - w) unread.length (choices 0)
  rw [hn] at hreq havail
  have hlen : (buffer.filled w ++ unread.take n).length = w + n := by
    rw [List.length_append, filled_length buffer h.bound, List.length_take]
    omega
  have hsplit : (buffer.filled w ++ unread.take n) ++ unread.drop n = stream ahead tail := by
    rw [List.append_assoc, List.take_append_drop, h.split]
  obtain ⟨taken, ahead', kept, hdrain, hkept, hstuck, hprog, hle⟩ :=
    drain_stream (Nat.le_refl 4) (by omega : 9990 ≤ 32767) h.clean ahead h.wf _ _ hsplit
  obtain ⟨rest, hrest, _, hloop⟩ := loop_step hn hpos hdrain
  refine ⟨taken, ahead', rest, kept.length, ⟨by omega, ?_, ?_, ?_, h.clean⟩, hprog,
    by omega, hloop⟩
  · rw [hrest, hkept]
  · rw [hrest]; exact hstuck
  · intro s hs
    obtain ⟨s', hs', hpacket, hgap⟩ := hprog.ahead_from s hs
    have hwf := h.wf s' hs'
    refine ⟨hpacket ▸ hwf.packet, ?_⟩
    rcases hgap with hgap | hgap
    · rw [hgap]; exact hwf.gap_clean
    · rw [hgap]; simp [magic]

/-! ## Runs -/

/-- Every gap leaves room for the magic word behind it, and the tail fits. -/
def Roomy (segs : List Segment) (tail : List UInt8) : Prop :=
  (∀ s ∈ segs, s.gap.length ≤ 9996) ∧ tail.length ≤ 10000

theorem Roomy.after (h : Roomy ahead tail) {need : Nat} {part : List UInt8}
    {ahead' : List Segment} {taken : List Packet}
    (hprog : Progress need part ahead ahead' taken) : Roomy ahead' tail := by
  refine ⟨?_, h.2⟩
  intro s hs
  obtain ⟨s', hs', _, hgap⟩ := hprog.ahead_from s hs
  rcases hgap with hgap | hgap
  · rw [hgap]; exact h.1 s' hs'
  · rw [hgap]; simp

/-- A roomy state has room for the next read. -/
theorem Waiting.room (h : Waiting buffer w unread ahead tail) (hroomy : Roomy ahead tail)
    (hmore : unread ≠ [] ∨ tail.length < 10000) : w < 10000 := by
  have hlen := filled_length buffer h.bound
  have hunread : unread ≠ [] → 0 < unread.length := List.length_pos_of_ne_nil
  cases ahead with
  | nil =>
      have hsplit := congrArg List.length h.split
      rw [List.length_append, hlen] at hsplit
      simp only [stream] at hsplit
      have := hroomy.2
      rcases hmore with hne | hlt
      · have := hunread hne; omega
      · omega
  | cons s more =>
      have hs := h.wf s List.mem_cons_self
      have hgap := hroomy.1 s List.mem_cons_self
      have hdata := hs.packet.data_le
      have hstuck := h.stuck
      simp only [Stuck, hlen, frame_length hs.packet.receiver_length, headerSize] at hstuck
      omega

/-- **Delivery.** From a roomy waiting state the loop returns, having handed on
every packet ahead, and every read had room. -/
theorem run_delivers :
    ∀ (n : Nat) (choices : Nat → Nat) (buffer : RecvBuffer) (w : Nat) (unread : List UInt8)
      (ahead : List Segment), unread.length ≤ n → Waiting buffer w unread ahead tail →
      Roomy ahead tail → ∀ fuel, 10001 + n < fuel →
      ∃ t, receivePacketLoop fuel choices buffer w unread = some t ∧ t.returned = true ∧
        t.handed = (ahead.map Segment.packet).map cPacket ∧
        ∀ call ∈ t.reads, (call.unread ≠ [] ∨ tail.length < 10000) → 0 < call.request := by
  intro n
  -- on the number of bytes still unread; every productive read takes at least one
  induction n with
  | zero =>
      intro choices buffer w unread ahead hlen hwait hroomy fuel hfuel
      obtain rfl : unread = [] := List.eq_nil_of_length_eq_zero (by omega)
      obtain ⟨fuel, rfl⟩ : ∃ f, fuel = f + 1 := ⟨fuel - 1, by omega⟩
      obtain rfl := hwait.ahead_nil
      refine ⟨_, loop_closed (by simp [readCount]) fuel, rfl, rfl, ?_⟩
      intro call hcall hmore
      rw [List.mem_singleton.mp hcall] at hmore ⊢
      have := hwait.room hroomy hmore
      show 0 < (10000 : Int) - w
      omega
  | succ n ih =>
      intro choices buffer w unread ahead hlen hwait hroomy fuel hfuel
      obtain ⟨fuel, rfl⟩ : ∃ f, fuel = f + 1 := ⟨fuel - 1, by omega⟩
      by_cases hnil : unread = []
      · subst hnil
        exact ih choices buffer w [] ahead (by simp) hwait hroomy (fuel + 1) (by omega)
      · have hroom := hwait.room hroomy (Or.inl hnil)
        have hpos := readCount_pos (by omega : 0 < (10000 : Int) - w)
          (List.length_pos_of_ne_nil hnil) (choices 0)
        obtain ⟨taken, ahead', rest, w', hwait', hprog, _, hloop⟩ := hwait.step rfl hpos
        obtain ⟨t, hrun, hret, hhanded, hreads⟩ :=
          ih (fun k => choices (k + 1)) rest w' _ ahead' (by rw [List.length_drop]; omega)
            hwait' (Roomy.after hroomy hprog) fuel (by omega)
        refine ⟨t.after ⟨10000 - w, unread⟩ (taken.map cPacket),
          by rw [hloop fuel (by omega), hrun]; rfl, hret, ?_, ?_⟩
        · rw [hprog.packets, List.map_append]
          show taken.map cPacket ++ t.handed = _
          rw [hhanded]
        · intro call hcall hmore
          rcases List.mem_cons.mp hcall with rfl | hcall
          · show 0 < (10000 : Int) - w
            omega
          · exact hreads call hcall hmore

/-- Some gap is too long for the magic word to fit behind it, or the tail too
long for the buffer. -/
def Stalling (segs : List Segment) (tail : List UInt8) : Prop :=
  (∃ s ∈ segs, 9996 < s.gap.length) ∨ 10000 < tail.length

theorem not_roomy_iff (segs : List Segment) (tail : List UInt8) :
    ¬ Roomy segs tail ↔ Stalling segs tail := by
  simp only [Roomy, Stalling, not_and_or, not_forall, not_le, exists_prop]

/-- **Stalling.** From a waiting state with an oversized gap the loop returns
after a read of size 0 with input left. -/
theorem run_stalls :
    ∀ (n : Nat) (choices : Nat → Nat) (buffer : RecvBuffer) (w : Nat) (unread : List UInt8)
      (ahead : List Segment), unread.length ≤ n → Waiting buffer w unread ahead tail →
      Stalling ahead tail → ∀ fuel, 10001 + n < fuel →
      ∃ t, receivePacketLoop fuel choices buffer w unread = some t ∧
        ∃ call ∈ t.reads, call.unread ≠ [] ∧ call.request = 0 := by
  intro n
  induction n with
  | zero =>
      intro choices buffer w unread ahead hlen hwait hstall fuel hfuel
      obtain rfl : unread = [] := List.eq_nil_of_length_eq_zero (by omega)
      obtain rfl := hwait.ahead_nil
      -- everything has been read, so the tail fits
      have hsplit := congrArg List.length hwait.split
      rw [List.append_nil, filled_length buffer hwait.bound] at hsplit
      have hbound := hwait.bound
      simp only [Stalling, stream, List.not_mem_nil, false_and, exists_false, false_or] at *
      omega
  | succ n ih =>
      intro choices buffer w unread ahead hlen hwait hstall fuel hfuel
      obtain ⟨fuel, rfl⟩ : ∃ f, fuel = f + 1 := ⟨fuel - 1, by omega⟩
      have hbound := hwait.bound
      by_cases hnil : unread = []
      · subst hnil
        exact ih choices buffer w [] ahead (by simp) hwait hstall (fuel + 1) (by omega)
      · by_cases hfull : w = 10000
        · -- the buffer is full of gap bytes
          subst hfull
          refine ⟨_, loop_closed (by simp [readCount]) fuel, _, List.mem_singleton_self _,
            hnil, ?_⟩
          simp
        · have hpos := readCount_pos (by omega : 0 < (10000 : Int) - w)
            (List.length_pos_of_ne_nil hnil) (choices 0)
          obtain ⟨taken, ahead', rest, w', hwait', hprog, hpartlen, hloop⟩ :=
            hwait.step rfl hpos
          have hstall' : Stalling ahead' tail := by
            rcases hstall with ⟨s, hs, hgap⟩ | htail
            · refine Or.inl ⟨s, ?_, hgap⟩
              exact (hprog.dropped s hs).resolve_left (by omega)
            · exact Or.inr htail
          obtain ⟨t, hrun, call, hcall, hbad⟩ :=
            ih (fun k => choices (k + 1)) rest w' _ ahead' (by rw [List.length_drop]; omega)
              hwait' hstall' fuel (by omega)
          exact ⟨t.after ⟨10000 - w, unread⟩ (taken.map cPacket),
            by rw [hloop fuel (by omega), hrun]; rfl, call, List.mem_cons_of_mem _ hcall, hbad⟩

/-- More fuel does not change a finished run. -/
theorem receivePacketLoop_mono {fuel : Nat} {choices : Nat → Nat} {buffer : RecvBuffer}
    {writePos : Int} {unread : List UInt8} {t : Transcript}
    (h : receivePacketLoop fuel choices buffer writePos unread = some t) (more : Nat) :
    receivePacketLoop (more + fuel) choices buffer writePos unread = some t := by
  induction fuel generalizing choices buffer writePos unread t with
  | zero => cases h
  | succ fuel ih =>
      rw [← Nat.add_assoc]
      rw [receivePacketLoop] at h ⊢
      dsimp only at h ⊢
      split
      · rename_i hn
        rw [if_pos hn] at h
        split
        · rename_i hstore
          rw [hstore] at h
          exact h
        · rename_i filled hstore
          rw [hstore] at h
          dsimp only at h
          cases hscan : scanRun fuel ⟨filled, writePos +
              (readCount (10000 - writePos) unread.length (choices 0) : Nat), 0⟩ with
          | none => rw [hscan] at h; cases h
          | some r =>
              rw [hscan] at h
              rw [scanRun_mono hscan more]
              obtain ⟨events, final⟩ := r
              cases final with
              | none => exact h
              | some s =>
                  simp only [Option.map_eq_some_iff] at h ⊢
                  obtain ⟨t', ht', rfl⟩ := h
                  exact ⟨t', ih ht', rfl⟩
      · rename_i hn
        rw [if_neg hn] at h
        exact h

/-- Before the first read. -/
theorem Waiting.start (buffer : RecvBuffer) {segs : List Segment} (hwf : ∀ s ∈ segs, s.Wf 9990)
    (hclean : ¬ magic <:+: tail) : Waiting buffer 0 (stream segs tail) segs tail := by
  refine ⟨by omega, by simp [RecvBuffer.filled], ?_, hwf, hclean⟩
  cases segs with
  | nil => trivial
  | cons s more => exact Or.inl (by simp [RecvBuffer.filled])

/-- A receiver without terminator is handed on unchanged. -/
theorem cPacket_eq {p : Packet} (hlen : p.receiver.length = 4) (hnz : ∀ b ∈ p.receiver, b ≠ 0) :
    cPacket p = p := by
  have htake : p.receiver.take 4 = p.receiver := List.take_of_length_le (by omega)
  rw [cPacket, CLib.strncpy_of_nonzero (by omega) (by rw [htake]; exact hnz), htake]

end InMemoryFuzzing.RemoteControl

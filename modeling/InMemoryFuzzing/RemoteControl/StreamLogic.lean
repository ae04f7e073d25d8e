import InMemoryFuzzing.RemoteControl.Framing

/-!
# Packets in a byte stream

A stream is a list of segments, each a gap of arbitrary bytes followed by a
packet, and a tail. `drain_stream` says what the abstract receiver makes of any
*part* of such a stream that has arrived: the packets that are complete, and a
remainder in which the next one is not (`Stuck`). The same lemma also tracks
which gaps are still in front (a gap is dropped only when the magic word behind
it has arrived with it), which is what a receiver with a bounded buffer has to
pay for.
-/

namespace InMemoryFuzzing.RemoteControl

open Base Platform

/-! ## One frame -/

/-- A packet the protocol can carry. -/
structure Packet.Wf (p : Packet) (maxData : Nat) : Prop where
  receiver_length : p.receiver.length = 4
  data_le : p.data.length ≤ maxData

theorem frame_length {p : Packet} (h : p.receiver.length = 4) :
    (frame p).length = headerSize + p.data.length := by
  simp [frame, headerSize, h]
  omega

theorem magic_prefix_frame (p : Packet) (rest : List UInt8) : magic <+: frame p ++ rest := by
  simp only [frame, List.append_assoc]
  exact List.prefix_append _ _

private theorem frame_drop {p : Packet} (h : p.receiver.length = 4) (rest : List UInt8) :
    (frame p ++ rest).drop 4 = p.receiver ++ (toLE 2 p.data.length ++ (p.data ++ rest)) ∧
    (frame p ++ rest).drop 8 = toLE 2 p.data.length ++ (p.data ++ rest) ∧
    (frame p ++ rest).drop 10 = p.data ++ rest := by
  simp only [frame, List.append_assoc]
  refine ⟨List.drop_left' rfl, ?_, ?_⟩
  · rw [show (8 : Nat) = 4 + 4 from rfl, ← List.drop_drop, List.drop_left' magic_length,
      List.drop_left' h]
  · rw [show (10 : Nat) = 4 + (4 + 2) from rfl, ← List.drop_drop, ← List.drop_drop,
      List.drop_left' magic_length, List.drop_left' h, List.drop_left' (toLE_length _ _)]

theorem lengthField_frame {p : Packet} (h : p.Wf 32767) (rest : List UInt8) :
    lengthField (frame p ++ rest) = p.data.length := by
  have hdata := h.data_le
  rw [lengthField, (frame_drop h.receiver_length rest).2.1,
    List.take_left' (toLE_length _ _), fromLE_toLE, CLib.int16, Int.bmod]
  norm_num
  omega

/-- A complete frame is taken whole. -/
theorem headStep_frame {p : Packet} (h : p.Wf 32767) (rest : List UInt8) :
    headStep (frame p ++ rest) = .item p rest := by
  obtain ⟨hdrop4, _, hdrop10⟩ := frame_drop h.receiver_length rest
  refine headStep_item.mpr ⟨p.data.length, lengthField_frame h rest, ?_, ?_, ?_⟩
  · rw [List.length_append, frame_length h.receiver_length]
    omega
  · rw [packetAt, hdrop4, headerSize, hdrop10, List.take_left' h.receiver_length,
      List.take_left' rfl]
  · rw [← frame_length h.receiver_length, List.drop_left' rfl]

/-- A frame that has not arrived completely is waited for. -/
theorem headStep_incomplete {p : Packet} (h : p.Wf 32767) {part : List UInt8}
    (hpart : part <+: frame p) (hlen : part.length < (frame p).length) :
    headStep part = .wait part := by
  refine headStep_wait.mpr ⟨rfl, ?_⟩
  by_cases hten : part.length < headerSize
  · exact Or.inl hten
  · obtain ⟨missing, hmissing⟩ := hpart
    have hfield : lengthField part = p.data.length := by
      rw [← lengthField_append (by omega) missing, hmissing]
      simpa using lengthField_frame h []
    rw [frame_length h.receiver_length] at hlen
    exact Or.inr ⟨by omega, by omega⟩

/-- Complete frames one behind the other are taken to the last byte. -/
theorem drain_frames {need : Nat} (hneed : 4 ≤ need) (hten : need ≤ headerSize)
    {packets : List Packet} (hwf : ∀ p ∈ packets, p.Wf 32767) :
    (framing need hneed).drain (packets.map frame).flatten = ⟨packets, some []⟩ := by
  induction packets with
  | nil =>
      refine Consumer.drain_wait (frameStep_of_none (locate_eq_none.mpr ?_))
      intro i hi
      simp only [List.map_nil, List.flatten_nil, List.length_nil] at hi
      omega
  | cons p rest ih =>
      have hp := hwf p List.mem_cons_self
      rw [List.map_cons, List.flatten_cons]
      have hl : locate magic need (frame p ++ (rest.map frame).flatten) = some 0 := by
        refine locate_zero ?_ (magic_prefix_frame p _)
        rw [List.length_append, frame_length hp.receiver_length]
        omega
      have hstep : (framing need hneed).step (frame p ++ (rest.map frame).flatten) =
          .item p (rest.map frame).flatten := by
        show frameStep need _ = _
        rw [frameStep_of_some hl, List.drop_zero, headStep_frame hp]
      rw [Consumer.drain_item hstep, ih fun q hq => hwf q (List.mem_cons_of_mem _ hq)]
      rfl

/-! ## Gaps -/

/-- The magic word cannot start in a magic-free gap and end in the frame behind
it: no proper suffix of the word is a prefix of it. -/
theorem noStart_of_clean {gap : List UInt8} (h : ¬ magic <:+: gap) (rest : List UInt8) :
    NoStart magic gap (magic ++ rest) := by
  intro j hj hfound
  rw [List.drop_append_of_le_length (by omega)] at hfound
  by_cases hin : 4 ≤ (gap.drop j).length
  · have hpre : magic <+: gap.drop j :=
      List.prefix_of_prefix_length_le hfound (List.prefix_append _ _) hin
    exact h (hpre.isInfix.trans (List.drop_suffix j gap).isInfix)
  · have hpos : 0 < (gap.drop j).length := by rw [List.length_drop]; omega
    obtain ⟨more, hmore⟩ := hfound
    -- one to three gap bytes, then an `F` where a `U` or a `Z` would have to be
    match hgap : gap.drop j, hin, hpos with
    | [_], _, _ => rw [hgap] at hmore; simp [magic] at hmore
    | [_, _], _, _ => rw [hgap] at hmore; simp [magic] at hmore
    | [_, _, _], _, _ => rw [hgap] at hmore; simp [magic] at hmore
    | _ :: _ :: _ :: _ :: _, hin, _ => simp at hin

/-- A magic-free tail is never located in. -/
theorem locate_clean {tail part : List UInt8} {need : Nat} (h : ¬ magic <:+: tail)
    (hpart : part <+: tail) : locate magic need part = none :=
  locate_eq_none.mpr fun i _ hfound =>
    h (hfound.isInfix.trans ((List.drop_suffix i part).isInfix.trans hpart.isInfix))

/-! ## Segments -/

/-- A packet and the bytes in front of it that belong to no packet. -/
structure Segment where
  gap : List UInt8
  packet : Packet

/-- A well-formed packet behind a gap without magic word. -/
structure Segment.Wf (s : Segment) (maxData : Nat) : Prop where
  packet : s.packet.Wf maxData
  gap_clean : ¬ magic <:+: s.gap

/-- The bytes of a list of segments and a tail. -/
def stream : List Segment → List UInt8 → List UInt8
  | [], tail => tail
  | s :: rest, tail => s.gap ++ (frame s.packet ++ stream rest tail)

/-- The next packet has not arrived: its magic word is not noticed yet, or
it is at the start and its frame is not complete. -/
def Stuck (need : Nat) (kept : List UInt8) : List Segment → Prop
  | [] => True
  | s :: _ => kept.length < s.gap.length + need ∨
      (s.gap = [] ∧ kept.length < (frame s.packet).length)

/-- How draining `part` leaves the segments: `ahead` are those still to come. -/
structure Progress (need : Nat) (part : List UInt8) (segs ahead : List Segment)
    (taken : List Packet) : Prop where
  packets : segs.map Segment.packet = taken ++ ahead.map Segment.packet
  /-- A segment that is no longer ahead was in `part` up to its magic word. -/
  dropped : ∀ s ∈ segs, s.gap.length + need ≤ part.length ∨ s ∈ ahead
  /-- What is ahead was ahead before, perhaps with a longer gap. -/
  ahead_from : ∀ s ∈ ahead, ∃ s' ∈ segs, s.packet = s'.packet ∧ (s.gap = s'.gap ∨ s.gap = [])

theorem Progress.refl (need : Nat) (part : List UInt8) (segs : List Segment) :
    Progress need part segs segs [] :=
  ⟨by simp, fun _ hs => Or.inr hs, fun s hs => ⟨s, hs, rfl, Or.inl rfl⟩⟩

/-- The magic word of the next segment is there: only its gap is dropped. -/
theorem Progress.gap_dropped {need : Nat} {part : List UInt8} {s : Segment}
    (hpart : s.gap.length + need ≤ part.length) (more : List Segment) :
    Progress need part (s :: more) (⟨[], s.packet⟩ :: more) [] := by
  refine ⟨rfl, ?_, ?_⟩
  · intro s' hs'
    rcases List.mem_cons.mp hs' with rfl | hs'
    · exact Or.inl hpart
    · exact Or.inr (List.mem_cons_of_mem _ hs')
  · intro s' hs'
    rcases List.mem_cons.mp hs' with rfl | hs'
    · exact ⟨s, List.mem_cons_self, rfl, Or.inr rfl⟩
    · exact ⟨s', List.mem_cons_of_mem _ hs', rfl, Or.inl rfl⟩

/-- The next segment is there as a whole: it is taken in front of the others. -/
theorem Progress.frame_taken {need : Nat} {part rest : List UInt8} {s : Segment}
    {more ahead : List Segment} {taken : List Packet} (h : Progress need rest more ahead taken)
    (hpart : s.gap.length + need ≤ part.length) (hrest : rest.length ≤ part.length) :
    Progress need part (s :: more) ahead (s.packet :: taken) := by
  refine ⟨by rw [List.map_cons, h.packets, List.cons_append], ?_, ?_⟩
  · intro s' hs'
    rcases List.mem_cons.mp hs' with rfl | hs'
    · exact Or.inl hpart
    · rcases h.dropped s' hs' with hgap | hahead
      · exact Or.inl (by omega)
      · exact Or.inr hahead
  · intro s' hs'
    obtain ⟨s'', hs'', hsame⟩ := h.ahead_from s' hs'
    exact ⟨s'', List.mem_cons_of_mem _ hs'', hsame⟩

/-! ## Draining -/

theorem Segment.Wf.noStart {s : Segment} {maxData : Nat} (h : s.Wf maxData) (rest : List UInt8) :
    NoStart magic s.gap (frame s.packet ++ rest) := by
  obtain ⟨x, hx⟩ := magic_prefix_frame s.packet rest
  rw [← hx]
  exact noStart_of_clean h.gap_clean x

/-- Behind a gap the step is at the frame, as soon as its magic word is noticed. -/
theorem frameStep_gap {s : Segment} {maxData need : Nat} (h : s.Wf maxData) (hneed : 4 ≤ need)
    {body unread rest : List UInt8} (hbody : body ++ unread = frame s.packet ++ rest)
    (hlen : need ≤ body.length) : frameStep need (s.gap ++ body) = headStep body := by
  have hmagic : magic <+: body :=
    List.prefix_of_prefix_length_le (magic_prefix_frame s.packet rest) ⟨unread, hbody⟩
      (by rw [magic_length]; omega)
  have hgap : NoStart magic s.gap body := NoStart.left (hbody ▸ h.noStart rest)
  rw [frameStep_of_some (locate_skip hgap (by omega) hmagic), List.drop_left' rfl]

/-- A part of the input that is longer than its front contains the front. -/
private theorem split_front {part unread front rest : List UInt8}
    (h : part ++ unread = front ++ rest) (hlen : front.length ≤ part.length) :
    ∃ body, part = front ++ body ∧ body ++ unread = rest := by
  obtain ⟨body, rfl⟩ := List.prefix_of_prefix_length_le (List.prefix_append front rest)
    ⟨unread, h⟩ hlen
  rw [List.append_assoc] at h
  exact ⟨body, rfl, List.append_cancel_left h⟩

/-- Draining a part of a stream. -/
theorem drain_stream {need maxData : Nat} (hneed : 4 ≤ need)
    (hmax : maxData ≤ 32767) {tail : List UInt8} (htail : ¬ magic <:+: tail) :
    ∀ (segs : List Segment), (∀ s ∈ segs, s.Wf maxData) → ∀ (part unread : List UInt8),
      part ++ unread = stream segs tail →
      ∃ taken ahead kept, (framing need hneed).drain part = ⟨taken, some kept⟩ ∧
        kept ++ unread = stream ahead tail ∧ Stuck need kept ahead ∧
        Progress need part segs ahead taken ∧ kept.length ≤ part.length := by
  intro segs
  induction segs with
  | nil =>
      intro _ part unread hpart
      have hl : locate magic need part = none := locate_clean htail ⟨unread, hpart⟩
      exact ⟨[], [], part, Consumer.drain_wait (frameStep_of_none hl), hpart, trivial,
        Progress.refl need part [], Nat.le_refl _⟩
  | cons s more ih =>
      intro hwf part unread hpart
      have hs := hwf s List.mem_cons_self
      have hpacket : s.packet.Wf 32767 :=
        ⟨hs.packet.receiver_length, by have := hs.packet.data_le; omega⟩
      by_cases hshort : part.length < s.gap.length + need
      · -- the magic word is not complete: nothing is found and nothing dropped
        have hl : locate magic need part = none :=
          locate_gap (hs.noStart _) hneed ⟨unread, hpart⟩ hshort
        exact ⟨[], s :: more, part, Consumer.drain_wait (frameStep_of_none hl), hpart,
          Or.inl hshort, Progress.refl need part _, Nat.le_refl _⟩
      · -- the gap is dropped
        obtain ⟨body, rfl, hbody⟩ := split_front hpart (by omega)
        have hlong : s.gap.length + need ≤ (s.gap ++ body).length := Nat.le_of_not_lt hshort
        have hstep : (framing need hneed).step (s.gap ++ body) = headStep body :=
          frameStep_gap hs hneed hbody (by rw [List.length_append] at hlong; omega)
        by_cases hwhole : body.length < (frame s.packet).length
        · -- the frame is not complete
          have hpart' : body <+: frame s.packet :=
            List.prefix_of_prefix_length_le ⟨unread, hbody⟩ (List.prefix_append _ _) (by omega)
          exact ⟨[], ⟨[], s.packet⟩ :: more, body,
            Consumer.drain_wait (hstep.trans (headStep_incomplete hpacket hpart' hwhole)),
            hbody, Or.inr ⟨rfl, hwhole⟩, Progress.gap_dropped hlong more, by simp⟩
        · -- the frame is taken and draining goes on behind it
          obtain ⟨rest, rfl, hrest⟩ := split_front hbody (by omega)
          obtain ⟨taken, ahead, kept, hdrain, hkept, hstuck, hprog, hle⟩ :=
            ih (fun s' hs' => hwf s' (List.mem_cons_of_mem _ hs')) rest unread hrest
          have hlen : rest.length ≤ (s.gap ++ (frame s.packet ++ rest)).length := by
            simp only [List.length_append]
            omega
          refine ⟨s.packet :: taken, ahead, kept, ?_, hkept, hstuck,
            hprog.frame_taken hlong hlen, hle.trans hlen⟩
          rw [Consumer.drain_item (hstep.trans (headStep_frame hpacket rest)), hdrain]
          rfl

end InMemoryFuzzing.RemoteControl

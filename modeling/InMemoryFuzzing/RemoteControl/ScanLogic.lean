import InMemoryFuzzing.RemoteControl.ReceiveLoop

/-!
# The scan refines the abstract receiver

One iteration of the `for` loop is compared with one step of `framing 4` on the
filled part of the buffer: the iterations before the first magic word only
advance `c`; the iteration at it does what `headStep` says. From this, the whole
scan is `drain` (`scanRun_drain`), as long as no located length is negative; if
one is, the scan hands `process_packet` a negative length (`scanRun_negative`).
-/

namespace InMemoryFuzzing.RemoteControl

open Base Platform

/-- The first `w` bytes of the buffer. -/
def RecvBuffer.filled (buffer : RecvBuffer) (w : Nat) : List UInt8 := buffer.bytes.take w

/-- The receiver as `extract_packet` copies it, in front of the data. -/
def cPacket (p : Packet) : Packet := ⟨CLib.strncpy 4 p.receiver, p.data⟩

theorem filled_length (buffer : RecvBuffer) {w : Nat} (hw : w ≤ 10000) :
    (buffer.filled w).length = w := by
  have := buffer.size
  simp only [RecvBuffer.filled, List.length_take]
  omega

/-- A load inside the filled part peels the next byte off it. -/
theorem load_filled (buffer : RecvBuffer) {w i : Nat} (hw : w ≤ 10000) (hi : i < w) :
    ∃ x, buffer.load i = some x ∧
      (buffer.filled w).drop i = x :: (buffer.filled w).drop (i + 1) := by
  have hlen := filled_length buffer hw
  have hsize := buffer.size
  refine ⟨(buffer.filled w)[i], ?_, List.drop_eq_getElem_cons (by omega)⟩
  rw [RecvBuffer.load, if_pos (by omega), Int.toNat_natCast, List.getElem?_eq_getElem (by omega)]
  simp [RecvBuffer.filled]

/-- Comparing a word at `i` decides whether it is a prefix there. -/
theorem compareWord_spec (buffer : RecvBuffer) {w : Nat} (hw : w ≤ 10000) :
    ∀ (word : List UInt8) (i : Nat), i + word.length ≤ w →
      (compareWord buffer word i).2 = some (word.isPrefixOf ((buffer.filled w).drop i)) ∧
      ∀ a ∈ (compareWord buffer word i).1, ∃ j : Nat, a = .load j ∧ j < w := by
  intro word
  induction word with
  | nil => intro i _; simp [compareWord]
  | cons b rest ih =>
      intro i hi
      simp only [List.length_cons] at hi
      obtain ⟨x, hload, hdrop⟩ := load_filled buffer hw (by omega : i < w)
      obtain ⟨hverdict, hloads⟩ := ih (i + 1) (by omega)
      rw [compareWord, hload, hdrop]
      by_cases hx : x = b
      · subst hx
        simp only [if_true, List.isPrefixOf, beq_self_eq_true, Bool.true_and]
        push_cast at hverdict hloads
        refine ⟨hverdict, ?_⟩
        intro a ha
        rcases List.mem_cons.mp ha with rfl | ha
        · exact ⟨i, rfl, by omega⟩
        · exact hloads a ha
      · have hne : (b == x) = false := by simpa using Ne.symm hx
        simp only [if_neg hx, List.isPrefixOf, hne, Bool.false_and]
        refine ⟨trivial, ?_⟩
        intro a ha
        exact ⟨i, List.mem_singleton.mp ha, by omega⟩

/-- The two length bytes behind the receiver. -/
theorem load_lengthField (buffer : RecvBuffer) {w i : Nat} (hw : w ≤ 10000)
    (hi : i + 10 ≤ w) :
    ∃ b0 b1, buffer.load (i + 8) = some b0 ∧ buffer.load (i + 9) = some b1 ∧
      CLib.readInt16T b0 b1 = lengthField ((buffer.filled w).drop i) := by
  obtain ⟨b0, h0, hdrop0⟩ := load_filled buffer hw (by omega : i + 8 < w)
  obtain ⟨b1, h1, hdrop1⟩ := load_filled buffer hw (by omega : i + 8 + 1 < w)
  refine ⟨b0, b1, by exact_mod_cast h0, by exact_mod_cast h1, ?_⟩
  rw [lengthField, List.drop_drop, hdrop0, hdrop1, CLib.readInt16T_eq]
  rfl

/-- Moving a suffix of the filled part to the start. -/
theorem copyToStart_filled (buffer : RecvBuffer) {w start len : Nat} (hw : w ≤ 10000)
    (hsum : start + len = w) :
    ∃ moved, buffer.copyToStart start len = some moved ∧
      moved.filled len = (buffer.filled w).drop start := by
  have hsize := buffer.size
  rw [RecvBuffer.copyToStart, dif_pos (by omega)]
  refine ⟨_, rfl, ?_⟩
  simp only [RecvBuffer.filled, Int.toNat_natCast]
  rw [List.take_append_of_le_length (by simp; omega), List.take_take, Nat.min_self,
    List.drop_take, show w - start = len by omega]

/-! ## One iteration -/

/-- The scan with natural-number positions. -/
def Scan.at (buffer : RecvBuffer) (w i : Nat) : Scan := ⟨buffer, w, i⟩

/-- All accesses of an iteration are in bounds. -/
def BodyInBounds (s : Scan) : Prop := ∀ e ∈ bodyEvents s, e.InBounds

variable {buffer : RecvBuffer} {w i : Nat}

theorem handed_append (xs ys : List Event) : handed (xs ++ ys) = handed xs ++ handed ys :=
  List.filterMap_append

/-- Accesses that are loads below `w` are in bounds and hand nothing on. -/
theorem loads_quiet {loads : List Access} (h : ∀ a ∈ loads, ∃ j : Nat, a = .load j ∧ j < w) :
    (∀ a ∈ loads, a.InBounds w) ∧ handed (loads.map (Event.mk w)) = [] := by
  constructor
  · intro a ha
    obtain ⟨j, rfl, hj⟩ := h a ha
    exact ⟨by omega, by omega⟩
  · rw [handed, List.filterMap_eq_nil_iff]
    intro e he
    obtain ⟨a, ha, rfl⟩ := List.mem_map.mp he
    obtain ⟨j, rfl, _⟩ := h a ha
    rfl

theorem scanBody_false {s : Scan} (h : (compareWord s.buffer magic s.c).2 = some false) :
    scanBody s = ((compareWord s.buffer magic s.c).1, .next { s with c := s.c + 1 }) := by
  unfold scanBody
  split
  · rename_i hc; rw [hc] at h; cases h
  · rename_i hc; rw [hc]
  · rename_i hc; rw [hc] at h; cases h

theorem scanBody_true {s : Scan} (h : (compareWord s.buffer magic s.c).2 = some true) :
    scanBody s = ((compareWord s.buffer magic s.c).1 ++ (foundMagic s).1, (foundMagic s).2) := by
  unfold scanBody
  split
  · rename_i hc; rw [hc] at h; cases h
  · rename_i hc; rw [hc] at h; cases h
  · rename_i hc; rw [hc]

/-- Away from a magic word the loop only advances. -/
theorem scanBody_advance (hw : w ≤ 10000) (hi : i + 4 ≤ w)
    (hno : ¬ magic <+: (buffer.filled w).drop i) :
    (scanBody (.at buffer w i)).2 = .next (.at buffer w (i + 1)) ∧
      BodyInBounds (.at buffer w i) ∧ handed (bodyEvents (.at buffer w i)) = [] := by
  obtain ⟨hverdict, hloads⟩ := compareWord_spec buffer hw magic i hi
  rw [Bool.eq_false_iff.mpr (fun h => hno (List.isPrefixOf_iff_prefix.mp h))] at hverdict
  have hbody : scanBody (.at buffer w i) =
      ((compareWord buffer magic i).1, .next (.at buffer w (i + 1))) :=
    scanBody_false hverdict
  obtain ⟨hin, hhanded⟩ := loads_quiet hloads
  refine ⟨by rw [hbody], ?_, by rw [bodyEvents, hbody]; exact hhanded⟩
  intro e he
  rw [bodyEvents, hbody] at he
  obtain ⟨a, ha, rfl⟩ := List.mem_map.mp he
  exact hin a ha

/-- At a magic word the iteration is the comparison followed by `foundMagic`. -/
theorem scanBody_magic (hw : w ≤ 10000) (hi : i + 4 ≤ w)
    (hmagic : magic <+: (buffer.filled w).drop i) :
    ∃ loads, scanBody (.at buffer w i) =
        (loads ++ (foundMagic (.at buffer w i)).1, (foundMagic (.at buffer w i)).2) ∧
      (∀ a ∈ loads, a.InBounds w) ∧ handed (loads.map (Event.mk w)) = [] := by
  obtain ⟨hverdict, hloads⟩ := compareWord_spec buffer hw magic i hi
  rw [List.isPrefixOf_iff_prefix.mpr hmagic] at hverdict
  exact ⟨_, scanBody_true hverdict, loads_quiet hloads⟩

/-- A slice of the filled part is a slice of the buffer. -/
theorem filled_slice {start len : Nat} (h : start + len ≤ w) :
    ((buffer.filled w).drop start).take len = (buffer.bytes.drop start).take len := by
  rw [RecvBuffer.filled, List.drop_take, List.take_take, Nat.min_eq_left (by omega)]

/-- `extract_packet` on a complete packet hands exactly that packet on. -/
theorem extractPacket_spec (buffer : RecvBuffer) {n : Nat} (h : i + 10 + n ≤ w) :
    (∀ a ∈ extractPacket buffer i n, a.InBounds w) ∧
      handed ((extractPacket buffer i n).map (Event.mk w)) =
        [cPacket (packetAt ((buffer.filled w).drop i) n)] := by
  constructor
  · intro a ha
    simp only [extractPacket, List.mem_cons, List.not_mem_nil, or_false] at ha
    rcases ha with rfl | rfl | rfl | rfl | rfl <;> simp only [Access.InBounds] <;> omega
  · have hreceiver : (((buffer.filled w).drop i).drop 4).take 4 =
        (buffer.bytes.drop (i + 4)).take 4 := by
      rw [List.drop_drop, filled_slice (by omega)]
    have hdata : (((buffer.filled w).drop i).drop headerSize).take n =
        (buffer.bytes.drop (i + 10)).take n := by
      rw [List.drop_drop, headerSize, filled_slice (by omega)]
    have hstart4 : ((i : Int) + 4).toNat = i + 4 := by omega
    have hstart10 : ((i : Int) + 10).toNat = i + 10 := by omega
    simp only [extractPacket, handed, List.map_cons, List.map_nil, List.filterMap_cons,
      List.filterMap_nil, cPacket, packetAt, hreceiver, hdata, hstart4, hstart10,
      Int.toNat_natCast, CLib.strncpy, List.take_take, Nat.min_self]

/-- What `foundMagic` does, compared with `headStep` on the bytes from `c` on. -/
theorem foundMagic_item (hw : w ≤ 10000) {p : Packet} {rest : List UInt8}
    (hs : headStep ((buffer.filled w).drop i) = .item p rest) :
    ∃ moved, (foundMagic (.at buffer w i)).2 = .next (.at moved rest.length 0) ∧
      moved.filled rest.length = rest ∧ rest.length + 10 + i ≤ w ∧
      (∀ a ∈ (foundMagic (.at buffer w i)).1, a.InBounds w) ∧
      handed ((foundMagic (.at buffer w i)).1.map (Event.mk w)) = [cPacket p] := by
  obtain ⟨n, hn, hlen, rfl, rfl⟩ := headStep_item.mp hs
  have hfilled := filled_length buffer hw
  simp only [headerSize, List.length_drop, hfilled] at hlen
  obtain ⟨b0, b1, h0, h1, hdl⟩ := load_lengthField buffer hw (by omega : i + 10 ≤ w)
  obtain ⟨hin, hhanded⟩ := extractPacket_spec buffer (by omega : i + 10 + n ≤ w)
  obtain ⟨moved, hmoved, hrest⟩ :=
    copyToStart_filled buffer hw (by omega : i + 10 + n + (w - i - 10 - n) = w)
  have hrestlen : (((buffer.filled w).drop i).drop (headerSize + n)).length = w - i - 10 - n := by
    simp only [headerSize, List.length_drop, hfilled]
    omega
  have hcast : (w : Int) - i - 10 - n = ((w - i - 10 - n : Nat) : Int) := by omega
  have hfound : foundMagic (.at buffer w i) =
      ([.load (i + 8), .load (i + 9)] ++ (extractPacket buffer i n ++
        [.copyToStart (i + 10 + n) (w - i - 10 - n)]), .next (.at moved (w - i - 10 - n) 0)) := by
    unfold foundMagic
    simp only [Scan.at, h0, h1, hdl, hn]
    rw [if_pos (by omega), if_pos (by omega)]
    unfold takePacket
    simp only [hcast]
    rw [show (i : Int) + 10 + n = ((i + 10 + n : Nat) : Int) by omega, hmoved]
    rfl
  refine ⟨moved, ?_, ?_, by rw [hrestlen]; omega, ?_, ?_⟩
  · rw [hfound, hrestlen]
  · rw [hrestlen, hrest, List.drop_drop, headerSize, Nat.add_assoc]
  · rw [hfound]
    intro a ha
    rcases List.mem_append.mp ha with ha | ha
    · simp only [List.mem_cons, List.not_mem_nil, or_false] at ha
      rcases ha with rfl | rfl <;> simp only [Access.InBounds] <;> omega
    · rcases List.mem_append.mp ha with ha | ha
      · exact hin a ha
      · rw [List.mem_singleton.mp ha]
        simp only [Access.InBounds]
        omega
  · rw [hfound]
    simp only [List.map_append, handed_append, hhanded]
    rfl

/-- An incomplete packet is moved to the start of the buffer. -/
theorem keepIncomplete_spec (buffer : RecvBuffer) (hw : w ≤ 10000) (hi : i ≤ w) :
    ∃ s, keepIncomplete (.at buffer w i) = ([.copyToStart i (w - i)], .leave s) ∧
      s.writePos = ((w - i : Nat) : Int) ∧
      s.buffer.filled (w - i) = (buffer.filled w).drop i := by
  obtain ⟨moved, hmoved, hkept⟩ := copyToStart_filled buffer hw (by omega : i + (w - i) = w)
  have hcast : (w : Int) - i = ((w - i : Nat) : Int) := by omega
  refine ⟨⟨moved, (w : Int) - i, i⟩, ?_, hcast, hkept⟩
  simp only [keepIncomplete, Scan.at, hcast, hmoved]

theorem foundMagic_wait (hw : w ≤ 10000) (hi : i ≤ w) {kept : List UInt8}
    (hs : headStep ((buffer.filled w).drop i) = .wait kept) :
    ∃ s, (foundMagic (.at buffer w i)).2 = .leave s ∧
      s.writePos = (kept.length : Int) ∧ s.buffer.filled kept.length = kept ∧
      (∀ a ∈ (foundMagic (.at buffer w i)).1, a.InBounds w) ∧
      handed ((foundMagic (.at buffer w i)).1.map (Event.mk w)) = [] := by
  obtain ⟨rfl, hshort⟩ := headStep_wait.mp hs
  have hfilled := filled_length buffer hw
  have hkeptlen : ((buffer.filled w).drop i).length = w - i := by
    rw [List.length_drop, hfilled]
  rw [hkeptlen, headerSize] at hshort
  obtain ⟨s, hkeep, hpos, hkept⟩ := keepIncomplete_spec buffer hw hi
  rw [hkeptlen]
  by_cases hten : 10 ≤ w - i
  · -- the header is there, the data is not
    obtain ⟨b0, b1, h0, h1, hdl⟩ := load_lengthField buffer hw (by omega : i + 10 ≤ w)
    have hfound : foundMagic (.at buffer w i) =
        ([.load (i + 8), .load (i + 9)] ++ [.copyToStart i (w - i)], .leave s) := by
      unfold foundMagic
      rw [if_pos (by simp only [Scan.at]; omega)]
      simp only [Scan.at, h0, h1, hdl]
      rw [if_neg (by omega)]
      simp only [Scan.at] at hkeep
      rw [hkeep]
    refine ⟨s, by rw [hfound], hpos, hkept, ?_, by rw [hfound]; rfl⟩
    rw [hfound]
    intro a ha
    simp only [List.cons_append, List.nil_append, List.mem_cons, List.not_mem_nil, or_false] at ha
    rcases ha with rfl | rfl | rfl <;> simp only [Access.InBounds] <;> omega
  · by_cases hzero : 0 < i
    · have hfound : foundMagic (.at buffer w i) = ([.copyToStart i (w - i)], .leave s) := by
        unfold foundMagic
        rw [if_neg (by simp only [Scan.at]; omega), if_pos (by simp only [Scan.at]; omega), hkeep]
      refine ⟨s, by rw [hfound], hpos, hkept, ?_, by rw [hfound]; rfl⟩
      rw [hfound]
      intro a ha
      rw [List.mem_singleton.mp ha]
      simp only [Access.InBounds]
      omega
    · -- already at the start: nothing is moved
      obtain rfl : i = 0 := by omega
      have hfound : foundMagic (.at buffer w 0) = ([], .leave (.at buffer w 0)) := by
        unfold foundMagic
        rw [if_neg (by simp only [Scan.at]; omega), if_neg (by simp only [Scan.at]; omega)]
      refine ⟨_, by rw [hfound], ?_, ?_, ?_, by rw [hfound]; rfl⟩
      · simp [Scan.at]
      · simp [Scan.at]
      · rw [hfound]; simp

/-- `extract_packet` passes a negative length on. -/
theorem extractPacket_negative (buffer : RecvBuffer) (startOffset writePos : Int)
    {dataLength : Int} (h : dataLength < 0) :
    ∃ a ∈ extractPacket buffer startOffset dataLength, ¬ a.InBounds writePos := by
  refine ⟨.processPacket (CLib.strncpy 4 (buffer.bytes.drop (startOffset + 4).toNat))
    ((buffer.bytes.drop (startOffset + 10).toNat).take dataLength.toNat)
    (startOffset + 10) dataLength, by simp [extractPacket], ?_⟩
  intro hin
  exact absurd hin.1 (by omega)

theorem takePacket_accesses (s : Scan) (dataLength : Int) :
    (takePacket s dataLength).1 = extractPacket s.buffer s.c dataLength ++
      [.copyToStart (s.c + 10 + dataLength) (s.writePos - s.c - 10 - dataLength)] := by
  simp only [takePacket]
  split <;> rfl

/-- A located negative length passes the completeness test and reaches
`process_packet`. -/
theorem foundMagic_fail (hw : w ≤ 10000)
    (hs : headStep ((buffer.filled w).drop i) = .fail) :
    ∃ a ∈ (foundMagic (.at buffer w i)).1, ¬ a.InBounds w := by
  obtain ⟨hlen, hneg⟩ := headStep_fail.mp hs
  rw [List.length_drop, filled_length buffer hw, headerSize] at hlen
  obtain ⟨b0, b1, h0, h1, hdl⟩ := load_lengthField buffer hw (by omega : i + 10 ≤ w)
  obtain ⟨a, ha, hbad⟩ := extractPacket_negative buffer i w hneg
  refine ⟨a, ?_, hbad⟩
  unfold foundMagic
  rw [if_pos (by simp only [Scan.at]; omega)]
  simp only [Scan.at, h0, h1, hdl]
  rw [if_pos (by omega)]
  refine List.mem_append_right _ ?_
  rw [takePacket_accesses]
  exact List.mem_append_left _ ha

/-! ## Runs of the scan -/

/-- `n` iterations that all fall through to the next one, with their events. -/
inductive ScanStar : Nat → Scan → List Event → Scan → Prop
  | refl {s} : ScanStar 0 s [] s
  | step {n s s' s'' es} : s.c < s.writePos - 3 → (scanBody s).2 = .next s' →
      ScanStar n s' es s'' → ScanStar (n + 1) s (bodyEvents s ++ es) s''

theorem ScanStar.trans {n m : Nat} {s s' s'' : Scan} {es es' : List Event}
    (h : ScanStar n s es s') (h' : ScanStar m s' es' s'') :
    ScanStar (n + m) s (es ++ es') s'' := by
  induction h with
  | refl => simpa using h'
  | step hc hb _ ih =>
      rw [Nat.add_right_comm, List.append_assoc]
      exact .step hc hb (ih h')

/-- Iterations that fall through only prepend their events. -/
theorem scanRun_star {n : Nat} {s s' : Scan} {es : List Event} (h : ScanStar n s es s')
    (fuel : Nat) :
    scanRun (n + fuel) s = (scanRun fuel s').map fun r => (es ++ r.1, r.2) := by
  induction h with
  | refl => simp
  | step hc hb _ ih =>
      rw [Nat.add_right_comm, scanRun, if_pos hc, hb]
      simp only [ih, Option.map_map]
      congr 1
      funext r
      simp

/-- More fuel does not change a finished scan. -/
theorem scanRun_mono {fuel : Nat} {s : Scan} {r : List Event × Option Scan}
    (h : scanRun fuel s = some r) (more : Nat) : scanRun (more + fuel) s = some r := by
  induction fuel generalizing s r with
  | zero => cases h
  | succ fuel ih =>
      rw [← Nat.add_assoc]
      rw [scanRun] at h ⊢
      by_cases hc : s.c < s.writePos - 3
      · rw [if_pos hc] at h ⊢
        cases hb : (scanBody s).2 with
        | fault => rw [hb] at h; exact h
        | leave s' => rw [hb] at h; exact h
        | next s' =>
            simp only [hb, Option.map_eq_some_iff] at h ⊢
            obtain ⟨r', hr', hr⟩ := h
            exact ⟨r', ih hr', hr⟩
      · rw [if_neg hc] at h ⊢
        exact h

/-- A finished scan contains the events of everything it fell through. -/
theorem scanRun_events {n fuel : Nat} {s s' : Scan} {es : List Event}
    {r : List Event × Option Scan} (h : ScanStar n s es s') (hr : scanRun fuel s = some r) :
    ∃ r', scanRun fuel s' = some r' ∧ r.1 = es ++ r'.1 := by
  have hmono := scanRun_mono hr n
  rw [scanRun_star h, Option.map_eq_some_iff] at hmono
  obtain ⟨r', hr', heq⟩ := hmono
  exact ⟨r', hr', by rw [← heq]⟩

/-- The scan walks to `j` if no magic word starts before it. -/
theorem star_advance (hw : w ≤ 10000) {j : Nat} (hj : j + 3 ≤ w)
    (hno : ∀ k < j, ¬ magic <+: (buffer.filled w).drop k) :
    ∀ d i, i + d = j → ∃ es, ScanStar d (.at buffer w i) es (.at buffer w j) ∧
      (∀ e ∈ es, e.InBounds) ∧ handed es = [] := by
  intro d
  induction d with
  | zero =>
      intro i hi
      obtain rfl : i = j := by omega
      exact ⟨[], .refl, by simp, rfl⟩
  | succ d ih =>
      intro i hi
      obtain ⟨hbody, hin, hhanded⟩ :=
        scanBody_advance hw (by omega : i + 4 ≤ w) (hno i (by omega))
      obtain ⟨es, hstar, hes, hnone⟩ := ih (i + 1) (by omega)
      refine ⟨_, .step (by simp only [Scan.at]; omega) hbody hstar, ?_, ?_⟩
      · intro e he
        rcases List.mem_append.mp he with he | he
        · exact hin e he
        · exact hes e he
      · rw [handed_append, hhanded, hnone]
        rfl

/-- The abstract receiver the scan implements: a magic word counts as soon as
its four bytes are there. -/
def serverFraming : Consumer UInt8 Packet := framing 4 (by decide)

/-- Reaching the first magic word, wherever it is. -/
theorem star_locate (hw : w ≤ 10000) (hl : locate magic 4 (buffer.filled w) = some i) :
    i + 4 ≤ w ∧ magic <+: (buffer.filled w).drop i ∧
    ∃ es, ScanStar i (.at buffer w 0) es (.at buffer w i) ∧
      (∀ e ∈ es, e.InBounds) ∧ handed es = [] := by
  obtain ⟨hlt, hmagic, hmin⟩ := locate_eq_some.mp hl
  rw [filled_length buffer hw] at hlt
  exact ⟨by omega, hmagic, star_advance hw (by omega) hmin i 0 (by omega)⟩

/-- The events of an iteration at a magic word. -/
theorem bodyEvents_magic (hw : w ≤ 10000) (hi : i + 4 ≤ w)
    (hmagic : magic <+: (buffer.filled w).drop i)
    (hin : ∀ a ∈ (foundMagic (.at buffer w i)).1, a.InBounds w) :
    (scanBody (.at buffer w i)).2 = (foundMagic (.at buffer w i)).2 ∧
    (∀ e ∈ bodyEvents (.at buffer w i), e.InBounds) ∧
    handed (bodyEvents (.at buffer w i)) =
      handed ((foundMagic (.at buffer w i)).1.map (Event.mk w)) := by
  obtain ⟨loads, hbody, hloads, hquiet⟩ := scanBody_magic hw hi hmagic
  refine ⟨by rw [hbody], ?_, ?_⟩
  · rw [bodyEvents, hbody]
    intro e he
    obtain ⟨a, ha, rfl⟩ := List.mem_map.mp he
    rcases List.mem_append.mp ha with ha | ha
    · exact hloads a ha
    · exact hin a ha
  · rw [bodyEvents, hbody]
    show handed (List.map (Event.mk w) _) = _
    rw [List.map_append, handed_append, hquiet, List.nil_append]

/-- What a finished scan leaves behind: no fault, every access in bounds, the
kept bytes at the start of the buffer, and these packets handed on. -/
structure ScanResult (buffer : RecvBuffer) (w : Nat) (kept : List UInt8)
    (packets : List Packet) (events : List Event) (s : Scan) : Prop where
  run : ∀ fuel, w < fuel → scanRun fuel (.at buffer w 0) = some (events, some s)
  writePos : s.writePos = kept.length
  filled : s.buffer.filled kept.length = kept
  kept_le : kept.length ≤ w
  inBounds : ∀ e ∈ events, e.InBounds
  handed : handed events = packets.map cPacket

/-- A scan that finds nothing to take leaves the loop by one of its exits. -/
theorem scan_wait (hw : w ≤ 10000) {kept : List UInt8}
    (hs : serverFraming.step (buffer.filled w) = .wait kept) :
    ∃ events s, ScanResult buffer w kept [] events s := by
  have hfilled := filled_length buffer hw
  cases hl : locate magic 4 (buffer.filled w) with
  | none =>
      -- ran to the end without a magic word
      have hkept : buffer.filled w = kept := by
        have := (frameStep_of_none hl).symm.trans hs
        injection this
      have hno := locate_eq_none.mp hl
      have hexit : ∀ (j fuel : Nat) (es : List Event), j ≤ w →
          ScanStar j (.at buffer w 0) es (.at buffer w j) → w ≤ j + 3 → w < fuel →
          scanRun fuel (.at buffer w 0) = some (es, some (.at buffer w j)) := by
        intro j fuel es hjw hstar hjend hfuel
        obtain ⟨extra, rfl⟩ : ∃ extra, fuel = j + (extra + 1) := ⟨fuel - j - 1, by omega⟩
        rw [scanRun_star hstar, scanRun, if_neg (by simp only [Scan.at]; omega)]
        simp
      by_cases hshort : w ≤ 3
      · exact ⟨[], .at buffer w 0, fun fuel hf => hexit 0 fuel [] (by omega) .refl (by omega) hf,
          by rw [← hkept, hfilled]; rfl, by rw [← hkept, hfilled]; rfl,
          by rw [← hkept, hfilled], by simp, rfl⟩
      · obtain ⟨es, hstar, hes, hnone⟩ := star_advance hw
          (by omega : w - 3 + 3 ≤ w) (fun k hk => hno k (by rw [hfilled]; omega)) (w - 3) 0 (by omega)
        exact ⟨es, .at buffer w (w - 3),
          fun fuel hf => hexit (w - 3) fuel es (by omega) hstar (by omega) hf,
          by rw [← hkept, hfilled]; rfl, by rw [← hkept, hfilled]; rfl,
          by rw [← hkept, hfilled], hes, by rw [hnone]; rfl⟩
  | some i =>
      -- stopped at an incomplete packet
      obtain ⟨hi, hmagic, es, hstar, hes, hnone⟩ := star_locate hw hl
      have hhead : headStep ((buffer.filled w).drop i) = .wait kept :=
        (frameStep_of_some hl).symm.trans hs
      obtain ⟨s, hleave, hpos, hkept, hin, hquiet⟩ := foundMagic_wait hw (by omega) hhead
      obtain ⟨hbody, hbodyIn, hbodyHanded⟩ := bodyEvents_magic hw hi hmagic hin
      obtain ⟨rfl, _⟩ := headStep_wait.mp hhead
      refine ⟨es ++ bodyEvents (.at buffer w i), s, ?_, hpos, hkept, by simp [hfilled], ?_, ?_⟩
      · intro fuel hf
        obtain ⟨extra, rfl⟩ : ∃ extra, fuel = i + (extra + 1) := ⟨fuel - i - 1, by omega⟩
        rw [scanRun_star hstar, scanRun, if_pos (by simp only [Scan.at]; omega), hbody, hleave]
        rfl
      · intro e he
        rcases List.mem_append.mp he with he | he
        · exact hes e he
        · exact hbodyIn e he
      · rw [handed_append, hnone, hbodyHanded, hquiet]
        rfl

/-- Taking one packet brings the scan back to `c = 0` on the rest. -/
theorem star_item (hw : w ≤ 10000) {p : Packet} {rest : List UInt8}
    (hs : serverFraming.step (buffer.filled w) = .item p rest) :
    ∃ n es moved, ScanStar n (.at buffer w 0) es (.at moved rest.length 0) ∧
      moved.filled rest.length = rest ∧ n + rest.length < w ∧
      (∀ e ∈ es, e.InBounds) ∧ handed es = [cPacket p] := by
  obtain ⟨i, hl, hhead⟩ := frameStep_item hs
  obtain ⟨hi, hmagic, es, hstar, hes, hnone⟩ := star_locate hw hl
  obtain ⟨moved, hnext, hrest, hshrink, hin, hhanded⟩ := foundMagic_item hw hhead
  obtain ⟨hbody, hbodyIn, hbodyHanded⟩ := bodyEvents_magic hw hi hmagic hin
  refine ⟨i + 1, es ++ (bodyEvents (.at buffer w i) ++ []), moved,
    hstar.trans (.step (by simp only [Scan.at]; omega) (hbody.trans hnext) .refl), hrest,
    by omega, ?_, ?_⟩
  · intro e he
    rw [List.append_nil] at he
    rcases List.mem_append.mp he with he | he
    · exact hes e he
    · exact hbodyIn e he
  · rw [List.append_nil, handed_append, hnone, hbodyHanded, hhanded]
    rfl

/-- **The scan is `drain`.** Without a located negative length the loop
terminates, stays in bounds, hands on the drained packets and keeps the drained
remainder. -/
theorem scanRun_drain (hw : w ≤ 10000) {kept : List UInt8}
    (hkept : (serverFraming.drain (buffer.filled w)).kept = some kept) :
    ∃ events s, ScanResult buffer w kept (serverFraming.drain (buffer.filled w)).items
      events s := by
  -- along the packets taken; the buffer contents change at every one of them
  generalize hb : buffer.filled w = content at hkept ⊢
  induction content using serverFraming.drain_induction generalizing buffer w with
  | item content p rest hs ih =>
      subst hb
      rw [Consumer.drain_item hs] at hkept ⊢
      obtain ⟨n, es, moved, hstar, hmoved, hshrink, hes, hhanded⟩ := star_item hw hs
      obtain ⟨es', s, hrun, hpos, hfill, hle, hes', hhanded'⟩ :=
        ih (by omega : rest.length ≤ 10000) hmoved hkept
      refine ⟨es ++ es', s, ?_, hpos, hfill, by omega, ?_, ?_⟩
      · intro fuel hf
        obtain ⟨extra, rfl⟩ : ∃ extra, fuel = n + extra := ⟨fuel - n, by omega⟩
        rw [scanRun_star hstar, hrun extra (by omega)]
        rfl
      · intro e he
        rcases List.mem_append.mp he with he | he
        · exact hes e he
        · exact hes' e he
      · rw [handed_append, hhanded, hhanded']
        rfl
  | wait content kept' hs =>
      subst hb
      rw [Consumer.drain_wait hs] at hkept ⊢
      cases hkept
      exact scan_wait hw hs
  | fail content hs =>
      rw [Consumer.drain_fail hs] at hkept
      cases hkept

/-- A located negative length shows in the events of every finished scan. -/
theorem scanRun_negative (hw : w ≤ 10000) (h : LocatesNegative 4 (buffer.filled w))
    {fuel : Nat} {r : List Event × Option Scan}
    (hr : scanRun fuel (.at buffer w 0) = some r) : ∃ e ∈ r.1, ¬ e.InBounds := by
  generalize hb : buffer.filled w = content at h
  induction h generalizing buffer w r with
  | @here content i hl hlen hneg =>
      subst hb
      obtain ⟨hi, hmagic, es, hstar, _, _⟩ := star_locate hw hl
      obtain ⟨a, ha, hbad⟩ := foundMagic_fail hw (headStep_fail.mpr ⟨hlen, hneg⟩)
      obtain ⟨loads, hbody, _, _⟩ := scanBody_magic hw hi hmagic
      have hmem : Event.mk w a ∈ bodyEvents (.at buffer w i) := by
        rw [bodyEvents, hbody]
        exact List.mem_map_of_mem (List.mem_append_right _ ha)
      obtain ⟨r', hr', hevents⟩ := scanRun_events hstar hr
      refine ⟨⟨w, a⟩, ?_, hbad⟩
      rw [hevents]
      refine List.mem_append_right _ ?_
      cases fuel with
      | zero => cases hr'
      | succ fuel =>
          rw [scanRun, if_pos (by simp only [Scan.at]; omega)] at hr'
          cases hflow : (scanBody (.at buffer w i)).2 with
          | fault => rw [hflow] at hr'; cases hr'; exact hmem
          | leave s => rw [hflow] at hr'; cases hr'; exact hmem
          | next s =>
              simp only [hflow, Option.map_eq_some_iff] at hr'
              obtain ⟨r'', _, rfl⟩ := hr'
              exact List.mem_append_left _ hmem
  | @later content i n hl hn hlen _ ih =>
      subst hb
      have hs : serverFraming.step (buffer.filled w) = .item _ _ :=
        (frameStep_of_some hl).trans (headStep_item.mpr ⟨n, hn, hlen, rfl, rfl⟩)
      obtain ⟨steps, es, moved, hstar, hmoved, hshrink, _, _⟩ := star_item hw hs
      obtain ⟨r', hr', hevents⟩ := scanRun_events hstar hr
      obtain ⟨e, he, hbad⟩ := ih (by omega) hr' hmoved
      exact ⟨e, by rw [hevents]; exact List.mem_append_right _ he, hbad⟩

end InMemoryFuzzing.RemoteControl

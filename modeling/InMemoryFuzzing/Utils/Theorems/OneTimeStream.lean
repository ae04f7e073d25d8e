import InMemoryFuzzing.Utils.OneTimeLogic

/-!
# `OneTimeStream` under its reader and its writers

In every state that is reached the stream is a queue: what the calls of `Read` have returned and
what is unread are what has been written (`one_time_stream_fifo`).

That a `Read` returns nothing, as at the end of a stream, is another matter. It needs an empty
`Write`: one that wakes a reader for which there is nothing, or one that puts an empty buffer
behind a full one, since `Read` takes the number of buffers for a sign that there is something to
read (`no_false_end`).
-/

namespace InMemoryFuzzing.Utils

open Base Platform OneTimeStream

namespace Traffic

/-! ## Steps -/

/-- What a step can be. -/
theorem step_cases {t t' : Traffic} {a : TrafficAction} (h : t.step a = some t') :
    (∃ call, a = .write call ∧ t' = t.write call) ∨
    (∃ call, a = .read call ∧ t.reader = .idle ∧ t.stream.MustWait ∧
      t' = { t with stream := { t.stream with evt := false }, reader := .waiting call }) ∨
    (∃ call, a = .read call ∧ t.reader = .idle ∧ ¬ t.stream.MustWait ∧ t' = t.finishRead call) ∨
    (∃ call, a = .wake ∧ t.reader = .waiting call ∧ t.stream.evt = true ∧
      t' = { t with stream := { t.stream with evt := false }, reader := .woken call }) ∨
    (∃ call, a = .resume ∧ t.reader = .woken call ∧ t' = t.finishRead call) := by
  cases a with
  | write call => exact .inl ⟨call, rfl, (Option.some.inj h).symm⟩
  | read call =>
      rw [step] at h
      split at h
      · split at h
        · exact .inr (.inl ⟨call, rfl, ‹_›, ‹_›, (Option.some.inj h).symm⟩)
        · exact .inr (.inr (.inl ⟨call, rfl, ‹_›, ‹_›, (Option.some.inj h).symm⟩))
      · cases h
  | wake =>
      rw [step] at h
      split at h
      · exact .inr (.inr (.inr (.inl ⟨_, rfl, ‹_›, ‹_›, (Option.some.inj h).symm⟩)))
      · cases h
  | resume =>
      rw [step] at h
      split at h
      · exact .inr (.inr (.inr (.inr ⟨_, rfl, ‹_›, (Option.some.inj h).symm⟩)))
      · cases h

/-- What holds between two steps. -/
structure Inv (t : Traffic) : Prop where
  shape : ∃ r w, Shape t.stream r w
  woken : ∀ call, t.reader = .woken call → t.stream.Ready
  waiting : ∀ call, t.reader = .waiting call → t.stream.evt = true → t.stream.Ready
  values : ∀ r ∈ t.returned, 0 ≤ r.value ∧ r.value ≤ r.call.count
  fault : t.fault = none

/-- The stream as a queue. -/
def fifo (t : Traffic) : Fifo UInt8 :=
  ⟨t.stream.unread, t.written, t.returned.map ReadResult.bytes⟩

theorem shape_evt {s : OneTimeStream} {r w : Nat} (h : Shape s r w) (evt : Bool) :
    Shape { s with evt := evt } r w :=
  ⟨h.readPosition, h.writePosition, h.readIndex, h.size, h.read_le, h.write_le, h.read_le_contents⟩

theorem ready_of_not_mustWait {s : OneTimeStream} {r w : Nat} (h : Shape s r w)
    (hwait : ¬ s.MustWait) : s.Ready := by
  have hwrite := h.write_le
  rw [MustWait, not_or, h.readIndex, h.readPosition, h.writePosition] at hwait
  refine ⟨fun hnil => hwait.1 (by rw [hnil, List.length_nil]), fun hone => ?_⟩
  rw [h.readPosition]
  omega

theorem write_eq {t : Traffic} (call : WriteCall) {r w : Nat} (h : Shape t.stream r w) :
    ∃ s' w', t.write call = { t with stream := s', written := t.written ++ call.bytes } ∧
      WriteSpec t.stream call r w s' w' := by
  obtain ⟨s', w', hwrite, hspec⟩ := write_spec h call
  exact ⟨s', w', by rw [write, hwrite], hspec⟩

theorem finishRead_eq {t : Traffic} (call : ReadCall) {r w : Nat} (h : Shape t.stream r w)
    (hready : t.stream.Ready) :
    ∃ result s' r', t.finishRead call =
        { t with stream := s', reader := .idle, returned := t.returned ++ [result] } ∧
      ReadSpec t.stream call w result s' r' := by
  obtain ⟨result, s', r', hread, hspec⟩ := readBytes_spec h hready call
  exact ⟨result, s', r', by rw [finishRead, hread], hspec⟩

theorem Inv.finishRead {t : Traffic} (ht : t.Inv) (hready : t.stream.Ready) (call : ReadCall) :
    (t.finishRead call).Inv ∧ (t.finishRead call).fifo = t.fifo.get call.count := by
  obtain ⟨r, w, hshape⟩ := ht.shape
  obtain ⟨result, s', r', heq, hspec⟩ := finishRead_eq call hshape hready
  rw [heq]
  constructor
  · refine ⟨⟨r', w, hspec.shape⟩, nofun, nofun, fun x hx => ?_, ht.fault⟩
    rcases List.mem_append.mp hx with hx | hx
    · exact ht.values x hx
    · obtain rfl := List.mem_singleton.mp hx
      rw [hspec.value, hspec.resultCall]
      omega
  · simp [fifo, Fifo.get, hspec.left, hspec.bytes]

theorem Inv.write {t : Traffic} (ht : t.Inv) (call : WriteCall) :
    (t.write call).Inv ∧ (t.write call).fifo = t.fifo.put call.bytes := by
  obtain ⟨r, w, hshape⟩ := ht.shape
  obtain ⟨s', w', heq, hspec⟩ := write_eq call hshape
  rw [heq]
  exact ⟨⟨⟨r, w', hspec.shape⟩, fun _ _ => hspec.ready, fun _ _ _ => hspec.ready, ht.values, ht.fault⟩,
    by simp [fifo, Fifo.put, hspec.left]⟩

/-- One step keeps the invariant, and is at most one operation of the queue. -/
theorem Inv.step {t t' : Traffic} {a : TrafficAction} (ht : t.Inv) (h : t.step a = some t') :
    t'.Inv ∧ Fifo.Leads t.fifo t'.fifo := by
  obtain ⟨r, w, hshape⟩ := ht.shape
  rcases step_cases h with ⟨call, rfl, rfl⟩ | ⟨call, rfl, hreader, hwait, rfl⟩ |
    ⟨call, rfl, hreader, hwait, rfl⟩ | ⟨call, rfl, hreader, hevt, rfl⟩ | ⟨call, rfl, hreader, rfl⟩
  · obtain ⟨hinv, hfifo⟩ := ht.write call
    rw [hfifo]
    exact ⟨hinv, Fifo.leads_put _ _⟩
  · exact ⟨⟨⟨r, w, shape_evt hshape false⟩, nofun, nofun, ht.values, ht.fault⟩, Fifo.Leads.refl _⟩
  · obtain ⟨hinv, hfifo⟩ := ht.finishRead (ready_of_not_mustWait hshape hwait) call
    rw [hfifo]
    exact ⟨hinv, Fifo.leads_get _ _⟩
  · exact ⟨⟨⟨r, w, shape_evt hshape false⟩, fun _ _ => ht.waiting call hreader hevt, nofun, ht.values,
      ht.fault⟩, Fifo.Leads.refl _⟩
  · obtain ⟨hinv, hfifo⟩ := ht.finishRead (ht.woken call hreader) call
    rw [hfifo]
    exact ⟨hinv, Fifo.leads_get _ _⟩

theorem inv_start : start.Inv := by
  refine ⟨⟨0, 0, rfl, rfl, rfl, nofun, Nat.zero_le _, Nat.zero_le _, Nat.zero_le _⟩, nofun, nofun, nofun,
    rfl⟩

theorem Inv.exec {t : Traffic} (ht : t.Inv) (acts : List TrafficAction) {t' : Traffic}
    (h : trafficSystem.exec t acts = some t') : t'.Inv ∧ Fifo.Leads t.fifo t'.fifo := by
  induction acts generalizing t with
  | nil =>
      obtain rfl := Option.some.inj h
      exact ⟨ht, Fifo.Leads.refl _⟩
  | cons a acts ih =>
      rw [TSys.exec, Option.bind_eq_some_iff] at h
      obtain ⟨mid, hstep, hrest⟩ := h
      obtain ⟨hmid, hleads⟩ := ht.step hstep
      obtain ⟨ht', hleads'⟩ := ih hmid hrest
      exact ⟨ht', hleads.trans hleads'⟩

theorem reachable_inv {t : Traffic} (h : trafficSystem.Reachable t) :
    t.Inv ∧ t.fifo.Accounted := by
  have hinductive : trafficSystem.Inductive TSys.anyStep fun t => t.Inv ∧ t.fifo.Accounted :=
    { init := by
        rintro t rfl
        exact ⟨inv_start, Fifo.accounted_empty⟩
      step := by
        rintro t a t' ⟨ht, haccounted⟩ - hstep
        obtain ⟨ht', hleads⟩ := ht.step hstep
        exact ⟨ht', hleads.accounted haccounted⟩ }
  exact hinductive.invariant t h

end Traffic

open Traffic

/-! ## First in, first out -/

/-- **The stream is a queue.** In every state reached, no call has raised and every `Read` has
returned between 0 and `count`; what has been returned and what is unread are what has been
written; a `Read` that does not wait returns the front of what is unread; and what later calls
return, and leave, is what is unread and what they write. -/
theorem one_time_stream_fifo {t : Traffic} (ht : trafficSystem.Reachable t) :
    t.fault = none ∧
    (∀ r ∈ t.returned, 0 ≤ r.value ∧ r.value ≤ r.call.count) ∧
    (t.returned.map ReadResult.bytes).flatten ++ t.stream.unread = t.written ∧
    (∀ call, t.reader = .idle → ¬ t.stream.MustWait →
      ∃ t' r, trafficSystem.step t (.read call) = some t' ∧ t'.returned = t.returned ++ [r] ∧
        r.bytes = t.stream.unread.take call.count ∧
        t'.stream.unread = t.stream.unread.drop call.count) ∧
    ∀ acts t', trafficSystem.exec t acts = some t' → Fifo.Leads t.fifo t'.fifo := by
  obtain ⟨hinv, haccounted⟩ := reachable_inv ht
  refine ⟨hinv.fault, hinv.values, haccounted, fun call hreader hwait => ?_,
    fun acts t' h => (hinv.exec acts h).2⟩
  obtain ⟨r, w, hshape⟩ := hinv.shape
  obtain ⟨result, s', r', heq, hspec⟩ :=
    finishRead_eq call hshape (ready_of_not_mustWait hshape hwait)
  refine ⟨t.finishRead call, result, ?_, ?_, hspec.bytes, ?_⟩
  · show t.step (.read call) = _
    rw [Traffic.step, hreader, if_neg hwait]
  · rw [heq]
  · rw [heq]
    exact hspec.left

/-- More than a chunk. -/
def longWrite : WriteCall where
  buffer := List.replicate 4098 1 ++ [2, 3]
  offset := 0
  count := 4100
  room := by
    rw [List.length_append, List.length_replicate]
    decide

/-- A call of `Read` for some bytes. -/
def readCall (n : Nat) (h : 1 ≤ n) : ReadCall := ⟨List.replicate n 0, 0, n, by simp, h⟩

/-- Across the end of the first chunk, and in the second one. -/
def longTraffic : List TrafficAction :=
  [.write longWrite, .read (readCall 4090 (by norm_num)), .read (readCall 9 (by norm_num))]

theorem one_time_stream_fifo_write :
    ∃ t, trafficSystem.exec .start longTraffic = some t ∧
      t.returned.map ReadResult.value = [4090, 9] ∧ t.stream.unread = [3] ∧
      (t.returned.map ReadResult.bytes).flatten ++ t.stream.unread = t.written := by
  have hvalues : (trafficSystem.exec .start longTraffic).map
      (fun t => (t.returned.map ReadResult.value, t.stream.unread)) = some ([4090, 9], [3]) := by
    decide +kernel
  obtain ⟨t, ht, heq⟩ := Option.map_eq_some_iff.mp hvalues
  obtain ⟨hreturned, hunread⟩ := Prod.mk.inj heq
  exact ⟨t, ht, hreturned, hunread,
    (one_time_stream_fifo (TSys.Reachable.exec longTraffic (.init rfl) ht)).2.2.1⟩

/-! ## The end of the stream -/

namespace Traffic

/-- A `Write` of no bytes does harm when it puts an empty buffer behind a full one, unless the
reader goes past the full one at once; and when it wakes a reader for which there is nothing. -/
def EmptyWriteHarms (t : Traffic) : Prop :=
  match t.reader with
  | .idle => t.stream.buffers ≠ [] ∧ t.stream.writePosition = bufferSize
  | .waiting call | .woken call =>
      t.stream.unread = [] ∨
        (t.stream.writePosition = bufferSize ∧ call.count ≤ t.stream.unread.length)

/-- No empty write that does harm. -/
def Harmless (t : Traffic) (a : TrafficAction) : Prop :=
  ∀ call, a = .write call → call.count = 0 → ¬ t.EmptyWriteHarms

/-- The reader, and the call with which it waits. -/
def Called (t : Traffic) (call : ReadCall) : Prop :=
  t.reader = .waiting call ∨ t.reader = .woken call

theorem Called.harms_iff {t : Traffic} {call : ReadCall} (h : t.Called call) :
    t.EmptyWriteHarms ↔ t.stream.unread = [] ∨
      (t.stream.writePosition = bufferSize ∧ call.count ≤ t.stream.unread.length) := by
  rcases h with hreader | hreader
  · rw [EmptyWriteHarms, hreader]
  · rw [EmptyWriteHarms, hreader]

/-- What harmless steps keep: the last of several buffers is not empty, unless the reader is about
to reach it; and a reader that goes on finds something. -/
structure Filling (t : Traffic) : Prop where
  idle : t.reader = .idle → 2 ≤ t.stream.buffers.length → 0 < t.stream.writePosition
  called : ∀ call, t.Called call → 2 ≤ t.stream.buffers.length →
    0 < t.stream.writePosition ∨ t.stream.unread.length < call.count
  woken : ∀ call, t.reader = .woken call → t.stream.unread ≠ []
  waiting : ∀ call, t.reader = .waiting call → t.stream.evt = true → t.stream.unread ≠ []
  values : ∀ r ∈ t.returned, 1 ≤ r.value

theorem contents_pos {buffers : List (List UInt8)} {w : Nat}
    (hsize : ∀ b ∈ buffers, b.length = bufferSize) (hne : buffers ≠ []) (hw : 0 < w) :
    0 < (contents buffers w).length := by
  obtain ⟨front, last, rfl⟩ := (List.eq_nil_or_concat' buffers).resolve_left hne
  have hlast := hsize last (by simp)
  have hpos := bufferSize_pos
  rw [contents_concat, List.length_append, List.length_take]
  omega

/-- Where `Read` does not wait there is something to read, unless the last buffer is empty. -/
theorem unread_ne_nil {s : OneTimeStream} {r w : Nat} (h : Shape s r w) (hwait : ¬ s.MustWait)
    (hfilling : 2 ≤ s.buffers.length → 0 < s.writePosition) : s.unread ≠ [] := by
  have hread := h.read_le
  have hwrite := h.write_le
  rw [MustWait, not_or, h.readIndex, h.readPosition, h.writePosition] at hwait
  rw [h.writePosition] at hfilling
  rw [← List.length_pos_iff, h.unread_eq, List.length_drop]
  have hsize := h.size
  match hbuffers : s.buffers with
  | [] => exact absurd (by rw [hbuffers, List.length_nil]) hwait.1
  | [b] =>
      have hb := hsize b (by simp [hbuffers])
      rw [hbuffers, List.length_singleton] at hwait
      rw [contents, List.length_take]
      omega
  | b :: c :: rest =>
      have hb := hsize b (by simp [hbuffers])
      have hrest : 0 < (contents (c :: rest) w).length := by
        refine contents_pos (fun x hx => hsize x ?_) (by simp) ?_
        · rw [hbuffers]
          exact List.mem_cons_of_mem _ hx
        · rw [hbuffers, List.length_cons, List.length_cons] at hfilling
          omega
      rw [contents, List.length_append]
      · omega
      · simp

theorem Filling.finishRead {t : Traffic} (ht : t.Inv) (hf : t.Filling) (hready : t.stream.Ready)
    (call : ReadCall) (hne : t.stream.unread ≠ [])
    (hlast : 2 ≤ t.stream.buffers.length →
      0 < t.stream.writePosition ∨ t.stream.unread.length < call.count) :
    (t.finishRead call).Filling := by
  obtain ⟨r, w, hshape⟩ := ht.shape
  obtain ⟨result, s', r', heq, hspec⟩ := finishRead_eq call hshape hready
  have hlength := hspec.length_le
  rw [heq]
  refine ⟨fun _ htwo => ?_, nofun, nofun, nofun, fun x hx => ?_⟩
  · -- a reader that goes past all there is ends in the last buffer
    have hmany : 2 ≤ s'.buffers.length := htwo
    show 0 < s'.writePosition
    rw [hspec.shape.writePosition, ← hshape.writePosition]
    rcases hlast (by omega) with hpos | hless
    · exact hpos
    · have hone := hspec.last hless
      omega
  · rcases List.mem_append.mp hx with hx | hx
    · exact hf.values x hx
    · obtain rfl := List.mem_singleton.mp hx
      have hpositive := call.positive
      have hpos := List.length_pos_iff.mpr hne
      rw [hspec.value]
      omega

theorem Filling.write {t : Traffic} (ht : t.Inv) (hf : t.Filling) {call : WriteCall}
    (hharmless : t.Harmless (.write call)) : (t.write call).Filling := by
  obtain ⟨r, w, hshape⟩ := ht.shape
  obtain ⟨s', w', heq, hspec⟩ := write_eq call hshape
  have hw := hshape.writePosition
  have hw' := hspec.shape.writePosition
  have hempty : t.stream.buffers = [] → t.stream.unread = [] := by
    intro hbuffers
    rw [hshape.unread_eq, hbuffers, contents, List.drop_nil]
  -- a reader that has been called finds something
  have hfound : ∀ reader, t.Called reader → s'.unread ≠ [] := by
    intro reader hcalled
    by_cases hpos : 0 < call.count
    · exact hspec.unread_ne hpos
    · have hharm := hharmless call rfl (by omega)
      rw [hcalled.harms_iff, not_or] at hharm
      rw [hspec.unread_of_empty (by omega)]
      exact hharm.1
  rw [heq]
  constructor
  case idle =>
    intro hreader htwo
    have hmany : 2 ≤ s'.buffers.length := htwo
    show 0 < s'.writePosition
    by_cases hpos : 0 < call.count
    · have hwritten := hspec.write_pos hpos
      omega
    · have hharm := hharmless call rfl (by omega)
      obtain ⟨hlength, hplace⟩ := hspec.nothing (by omega)
      rw [EmptyWriteHarms, hreader] at hharm
      by_cases hfull : Full t.stream.buffers w
      · rw [if_pos hfull] at hlength
        rcases hfull with hnil | hend
        · rw [hnil, List.length_nil] at hlength
          omega
        · refine absurd ⟨fun hnil => ?_, hw.trans (congrArg _ hend)⟩ hharm
          rw [hnil, List.length_nil] at hlength
          omega
      · rw [if_neg hfull] at hlength hplace
        have hfilling := hf.idle hreader (by omega)
        omega
  case called =>
    intro reader hcalled htwo
    have hmany : 2 ≤ s'.buffers.length := htwo
    show 0 < s'.writePosition ∨ s'.unread.length < reader.count
    by_cases hpos : 0 < call.count
    · have hwritten := hspec.write_pos hpos
      omega
    · have hharm := hharmless call rfl (by omega)
      have hbefore : t.Called reader := hcalled
      have hfilling := hf.called reader hbefore
      obtain ⟨hlength, hplace⟩ := hspec.nothing (by omega)
      rw [hspec.unread_of_empty (by omega)]
      rw [hbefore.harms_iff, not_or, not_and] at hharm
      by_cases hfull : Full t.stream.buffers w
      · rcases hfull with hnil | hend
        · exact absurd (hempty hnil) hharm.1
        · have hmore := hharm.2 (hw.trans (congrArg _ hend))
          omega
      · rw [if_neg hfull] at hlength hplace
        have hfilling := hfilling (by omega)
        omega
  case woken => exact fun reader hreader => hfound reader (.inr hreader)
  case waiting => exact fun reader hreader _ => hfound reader (.inl hreader)
  case values => exact hf.values

theorem Filling.step {t t' : Traffic} {a : TrafficAction} (ht : t.Inv) (hf : t.Filling)
    (hharmless : t.Harmless a) (h : t.step a = some t') : t'.Filling := by
  obtain ⟨r, w, hshape⟩ := ht.shape
  rcases step_cases h with ⟨call, rfl, rfl⟩ | ⟨call, rfl, hreader, hwait, rfl⟩ |
    ⟨call, rfl, hreader, hwait, rfl⟩ | ⟨call, rfl, hreader, hevt, rfl⟩ | ⟨call, rfl, hreader, rfl⟩
  · exact hf.write ht hharmless
  · refine ⟨nofun, fun reader hcalled htwo => ?_, nofun, nofun, hf.values⟩
    -- a reader waits in front of at most one buffer
    have hmany : 2 ≤ t.stream.buffers.length := htwo
    rw [MustWait, hshape.readIndex] at hwait
    omega
  · have hfilling := hf.idle hreader
    exact hf.finishRead ht (ready_of_not_mustWait hshape hwait) call
      (unread_ne_nil hshape hwait hfilling) fun htwo => .inl (hfilling htwo)
  · refine ⟨nofun, fun reader hcalled => ?_, fun reader hwoken => ?_, nofun, hf.values⟩
    · obtain rfl : call = reader := by
        rcases hcalled with hcalled | hcalled
        · cases hcalled
        · exact StreamReader.woken.inj hcalled
      exact hf.called call (.inl hreader)
    · exact hf.waiting call hreader hevt
  · exact hf.finishRead ht (ht.woken call hreader) call (hf.woken call hreader)
      (hf.called call (.inr hreader))

theorem filling_start : start.Filling := by
  refine ⟨fun _ htwo => ?_, nofun, nofun, nofun, nofun⟩
  have hmany : 2 ≤ ([] : List (List UInt8)).length := htwo
  simp at hmany

/-- Without harmful writes every `Read` returns something. -/
theorem filling_of_harmless {t : Traffic} (h : trafficSystem.ReachableBy Harmless t) :
    t.Inv ∧ t.Filling := by
  have hinductive : trafficSystem.Inductive Harmless fun t => t.Inv ∧ t.Filling :=
    { init := by
        rintro t rfl
        exact ⟨inv_start, filling_start⟩
      step := by
        rintro t a t' ⟨ht, hf⟩ hharmless hstep
        exact ⟨(ht.step hstep).1, hf.step ht hharmless hstep⟩ }
  exact hinductive.invariant t h

/-! ### Harmful writes -/

/-- Some calls of the reader alone end with a `Read` that returns 0. -/
def ZeroReadFollows (t : Traffic) : Prop :=
  ∃ acts t' later, (∀ a ∈ acts, ∀ call, a ≠ .write call) ∧ trafficSystem.exec t acts = some t' ∧
    t'.returned = t.returned ++ later ∧ ∃ r ∈ later, r.value = 0

theorem ZeroReadFollows.before {t t' : Traffic} {a : TrafficAction} {more : List ReadResult}
    (ha : ∀ call, a ≠ .write call) (hstep : t.step a = some t')
    (hreturned : t'.returned = t.returned ++ more) (h : t'.ZeroReadFollows) : t.ZeroReadFollows := by
  obtain ⟨acts, t₂, later, hacts, hexec, hlater, r, hr, hzero⟩ := h
  refine ⟨a :: acts, t₂, more ++ later, List.forall_mem_cons.mpr ⟨ha, hacts⟩, ?_, ?_, r,
    List.mem_append_right _ hr, hzero⟩
  · rw [TSys.exec]
    show (t.step a).bind _ = _
    rw [hstep]
    exact hexec
  · rw [hlater, hreturned, List.append_assoc]

/-- The last step is the `Read` that returns 0. -/
theorem zeroReadFollows_of_step {t : Traffic} (a : TrafficAction) (call : ReadCall)
    (ha : ∀ call, a ≠ .write call) (ht : t.Inv) (hready : t.stream.Ready)
    (hstep : t.step a = some (t.finishRead call)) (hnone : t.stream.unread = []) :
    t.ZeroReadFollows := by
  obtain ⟨r, w, hshape⟩ := ht.shape
  obtain ⟨result, s', r', heq, hspec⟩ := finishRead_eq call hshape hready
  refine ⟨[a], t.finishRead call, [result], by simpa using ha, ?_, by rw [heq], result, by simp, ?_⟩
  · rw [TSys.exec]
    show (t.step a).bind _ = _
    rw [hstep]
    rfl
  · rw [hspec.value, hnone, List.length_nil, Nat.min_zero]
    rfl

/-- The last of several buffers is empty. -/
def EmptyBehind (s : OneTimeStream) : Prop := 2 ≤ s.buffers.length ∧ s.writePosition = 0

theorem EmptyBehind.not_mustWait {s : OneTimeStream} {r w : Nat} (h : EmptyBehind s)
    (hshape : Shape s r w) : ¬ s.MustWait := by
  rw [MustWait, hshape.readIndex]
  have htwo := h.1
  omega

/-- A `Read` that does not go past what there is does not reach the empty buffer. -/
theorem EmptyBehind.read {s s' : OneTimeStream} {call : ReadCall} {w r' : Nat} {result : ReadResult}
    (h : EmptyBehind s) (hw : s.writePosition = w) (hspec : ReadSpec s call w result s' r')
    (hcount : call.count ≤ s.unread.length) : EmptyBehind s' := by
  obtain rfl : w = 0 := by
    have hzero := h.2
    omega
  have hread := hspec.read_pos hcount
  have hle := hspec.shape.read_le_contents
  refine ⟨?_, hspec.shape.writePosition⟩
  match hbuffers : s'.buffers with
  | [] => exact absurd hbuffers hspec.ne
  | [b] =>
      rw [hbuffers, contents, List.take_zero, List.length_nil] at hle
      omega
  | b :: c :: rest => simp

theorem zeroReadFollows_of_emptyBehind {t : Traffic} (ht : t.Inv) (hreader : t.reader = .idle)
    (hempty : EmptyBehind t.stream) : t.ZeroReadFollows := by
  have hreads : ∀ {t : Traffic} (call : ReadCall), t.Inv → t.reader = .idle → EmptyBehind t.stream →
      t.stream.Ready ∧ t.step (.read call) = some (t.finishRead call) := by
    intro t call ht hreader hempty
    obtain ⟨r, w, hshape⟩ := ht.shape
    have hwait := hempty.not_mustWait hshape
    exact ⟨ready_of_not_mustWait hshape hwait, by rw [Traffic.step, hreader, if_neg hwait]⟩
  have hzero : ∀ {t : Traffic}, t.Inv → t.reader = .idle → EmptyBehind t.stream →
      t.stream.unread = [] → t.ZeroReadFollows := by
    intro t ht hreader hempty hnone
    obtain ⟨hready, hstep⟩ := hreads (readCall 1 (le_refl 1)) ht hreader hempty
    exact zeroReadFollows_of_step _ _ (by simp) ht hready hstep hnone
  by_cases hnone : t.stream.unread = []
  · exact hzero ht hreader hempty hnone
  · -- the reader takes all there is, and no more
    obtain ⟨r, w, hshape⟩ := ht.shape
    obtain ⟨all, hall⟩ : ∃ all : ReadCall, all.count = t.stream.unread.length :=
      ⟨readCall _ (List.length_pos_iff.mpr hnone), rfl⟩
    obtain ⟨hready, hstep⟩ := hreads all ht hreader hempty
    obtain ⟨result, s', r', heq, hspec⟩ := finishRead_eq all hshape hready
    have hleft : s'.unread = [] := by rw [hspec.left, hall, List.drop_length]
    have hbehind := hempty.read hshape.writePosition hspec hall.le
    have hinv := (ht.finishRead hready all).1
    rw [heq] at hinv hstep
    exact ZeroReadFollows.before (by simp) hstep rfl (hzero hinv rfl hbehind hleft)

/-- A reader that goes on with nothing to read, or without going past what there is in front of an
empty buffer. -/
theorem zeroReadFollows_of_woken {t : Traffic} (ht : t.Inv) {call : ReadCall}
    (hreader : t.reader = .woken call) (h : t.stream.unread = [] ∨
      (EmptyBehind t.stream ∧ call.count ≤ t.stream.unread.length)) : t.ZeroReadFollows := by
  have hready := ht.woken call hreader
  have hstep : t.step .resume = some (t.finishRead call) := by rw [Traffic.step, hreader]
  rcases h with hnone | ⟨hempty, hcount⟩
  · exact zeroReadFollows_of_step _ call (by simp) ht hready hstep hnone
  · obtain ⟨r, w, hshape⟩ := ht.shape
    obtain ⟨result, s', r', heq, hspec⟩ := finishRead_eq call hshape hready
    have hbehind := hempty.read hshape.writePosition hspec hcount
    have hinv := (ht.finishRead hready call).1
    rw [heq] at hinv hstep
    exact ZeroReadFollows.before (by simp) hstep rfl (zeroReadFollows_of_emptyBehind hinv rfl hbehind)

/-- After a harmful write the reader can be made to believe that the stream has ended. -/
theorem zeroReadFollows_of_harm {t : Traffic} (ht : t.Inv) {call : WriteCall}
    (hempty : call.count = 0) (hharm : t.EmptyWriteHarms) : (t.write call).ZeroReadFollows := by
  obtain ⟨r, w, hshape⟩ := ht.shape
  obtain ⟨s', w', heq, hspec⟩ := write_eq call hshape
  obtain ⟨hlength, hplace⟩ := hspec.nothing hempty
  have hinv := (ht.write call).1
  have hunread := hspec.unread_of_empty hempty
  have hbehind : t.stream.buffers ≠ [] → t.stream.writePosition = bufferSize → EmptyBehind s' := by
    intro hne hend
    have hpos := List.length_pos_iff.mpr hne
    have hfull : Full t.stream.buffers w := by
      have hw := hshape.writePosition
      exact .inr (by omega)
    rw [if_pos hfull] at hlength hplace
    exact ⟨by omega, by rw [hspec.shape.writePosition, hplace]; rfl⟩
  have hcalled : ∀ reader : ReadCall, t.stream.unread = [] ∨
      (t.stream.writePosition = bufferSize ∧ reader.count ≤ t.stream.unread.length) →
      s'.unread = [] ∨ (EmptyBehind s' ∧ reader.count ≤ s'.unread.length) := by
    intro reader hnothing
    rw [hunread]
    refine hnothing.imp_right ?_
    rintro ⟨hend, hcount⟩
    refine ⟨hbehind (fun hnil => ?_) hend, hcount⟩
    have hpositive := reader.positive
    rw [hshape.unread_eq, hnil, contents, List.drop_nil, List.length_nil] at hcount
    omega
  have hstream : (t.write call).stream = s' := by rw [heq]
  have hsame : (t.write call).reader = t.reader := by rw [heq]
  rw [← hstream] at hbehind hcalled
  cases hreader : t.reader with
  | idle =>
      rw [EmptyWriteHarms, hreader] at hharm
      exact zeroReadFollows_of_emptyBehind hinv (hsame.trans hreader) (hbehind hharm.1 hharm.2)
  | woken reader =>
      rw [EmptyWriteHarms, hreader] at hharm
      exact zeroReadFollows_of_woken hinv (hsame.trans hreader) (hcalled reader hharm)
  | waiting reader =>
      rw [EmptyWriteHarms, hreader] at hharm
      -- the write has set the event
      have hevt : (t.write call).stream.evt = true := by rw [hstream, hspec.evt]
      have hstep : (t.write call).step .wake = some { t.write call with
          stream := { (t.write call).stream with evt := false }, reader := .woken reader } := by
        rw [Traffic.step, hsame, hreader, hevt]
      exact ZeroReadFollows.before (by simp) hstep (List.append_nil _).symm
        (zeroReadFollows_of_woken (hinv.step hstep).1 rfl (hcalled reader hharm))

end Traffic

/-- **No false end of the stream.** In a run without harmful empty writes every `Read` that returns
has returned at least one byte; and after any harmful one the reader alone can go on to a `Read`
that returns 0. -/
theorem no_false_end (t : Traffic) :
    (trafficSystem.ReachableBy Harmless t → ∀ r ∈ t.returned, 1 ≤ r.value) ∧
    ∀ call, trafficSystem.Reachable t → call.count = 0 → t.EmptyWriteHarms →
      (t.write call).ZeroReadFollows :=
  ⟨fun ht => (filling_of_harmless ht).2.values,
    fun _ ht hempty hharm => zeroReadFollows_of_harm (reachable_inv ht).1 hempty hharm⟩

/-- There is no empty write. -/
theorem no_false_end_read :
    ∃ t, trafficSystem.exec .start longTraffic = some t ∧ t.returned.length = 2 ∧
      ∀ r ∈ t.returned, 1 ≤ r.value := by
  have hlength : (trafficSystem.exec .start longTraffic).map (fun t => t.returned.length) = some 2 := by
    decide +kernel
  obtain ⟨t, ht, hreturned⟩ := Option.map_eq_some_iff.mp hlength
  have hharmless : ∀ a ∈ longTraffic, ∀ s, Harmless s a := by
    rintro a ha s call rfl hempty
    obtain rfl : call = longWrite := by simpa [longTraffic] using ha
    exact absurd hempty (by decide)
  have hreach := TSys.ReachableBy.exec longTraffic (.init rfl) hharmless ht
  exact ⟨t, ht, hreturned, (no_false_end t).1 hreach⟩

/-- A `Read` waits, and a thread of `MultiTextReader` comes to the end of its reader. -/
def endOfReader : List TrafficAction :=
  [.read (readCall 1 (le_refl 1)), .write (readThreadWrite []), .wake, .resume]

theorem false_end :
    ∃ t, trafficSystem.exec .start endOfReader = some t ∧ ¬∀ r ∈ t.returned, 1 ≤ r.value := by
  have hnothing : readThreadWrite [] = ⟨[], 0, 0, by simp⟩ := by
    simp [readThreadWrite, DotNet.utf8GetBytes_eq]
  have hvalues : (trafficSystem.exec .start endOfReader).map
      (fun t => t.returned.map ReadResult.value) = some [0] := by
    rw [endOfReader, hnothing]
    decide +kernel
  obtain ⟨t, ht, hreturned⟩ := Option.map_eq_some_iff.mp hvalues
  refine ⟨t, ht, fun h => ?_⟩
  obtain ⟨r, hr, hzero⟩ := List.mem_map.mp (hreturned ▸ List.mem_singleton_self (0 : Int))
  have hone := h r hr
  omega

end InMemoryFuzzing.Utils

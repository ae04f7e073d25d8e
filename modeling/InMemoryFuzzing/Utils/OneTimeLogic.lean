import InMemoryFuzzing.Utils.OneTimeStream

/-!
# What `Read` and `Write` of `OneTimeStream` do

`contents` are the bytes in the buffers, as far as they have been written. Between two calls the
index is 0 and all buffers have the same size (`Shape`). `Write` appends to the contents
(`write_spec`), and `Read` takes from behind the read position as many bytes as it can
(`readBytes_spec`). Where the two positions stand then decides whether a later `Read` waits.
-/

namespace InMemoryFuzzing.Utils.OneTimeStream

open Base Platform DotNet

theorem bufferSize_pos : 0 < bufferSize := by simp [bufferSize]

/-! ## Contents -/

/-- The bytes in the buffers; the last one is filled up to the write position. -/
def contents : List (List UInt8) → Nat → List UInt8
  | [], _ => []
  | [last], w => last.take w
  | b :: rest, w => b ++ contents rest w

/-- The bytes that have been written and not read. -/
def unread (s : OneTimeStream) : List UInt8 :=
  (contents (s.buffers.drop s.readIndex) s.writePosition.toNat).drop s.readPosition.toNat

theorem contents_cons (b : List UInt8) (rest : List (List UInt8)) (w : Nat) :
    contents (b :: rest) w = b.take (if rest = [] then w else b.length) ++ contents rest w := by
  cases rest with
  | nil => simp [contents]
  | cons c rest => simp [contents]

theorem contents_concat (front : List (List UInt8)) (last : List UInt8) (w : Nat) :
    contents (front ++ [last]) w = front.flatten ++ last.take w := by
  induction front with
  | nil => rfl
  | cons b front ih =>
      rw [List.cons_append, contents_cons, ih, if_neg (by simp), List.take_length,
        List.flatten_cons, List.append_assoc]

/-- The buffers and positions between two calls. -/
structure Shape (s : OneTimeStream) (r w : Nat) : Prop where
  readPosition : s.readPosition = r
  writePosition : s.writePosition = w
  readIndex : s.readIndex = 0
  size : ∀ b ∈ s.buffers, b.length = bufferSize
  read_le : r ≤ bufferSize
  write_le : w ≤ bufferSize
  read_le_contents : r ≤ (contents s.buffers w).length

/-! ## The loop of `Read` -/

/-- How many bytes of a buffer can be read. -/
def filled (w : Nat) (b : List UInt8) (rest : List (List UInt8)) : Nat :=
  if rest = [] then w else b.length

/-- A pass starts at the place `r` of the buffer `b`, with the bytes `taken` read so far. -/
structure At (s : OneTimeStream) (call : ReadCall) (w i r : Nat) (b : List UInt8)
    (rest : List (List UInt8)) (taken buffer : List UInt8) : Prop where
  buffers : s.buffers.drop i = b :: rest
  read_lt : r < bufferSize
  read_le : rest = [] → r ≤ w
  taken_lt : taken.length < call.count
  length : buffer.length = call.buffer.length
  window : (buffer.drop call.offset).take taken.length = taken

section

variable {s : OneTimeStream} {call : ReadCall} {w i r : Nat} {b : List UInt8}
variable {rest : List (List UInt8)} {taken buffer : List UInt8}

/-- The last buffer. -/
theorem At.last_iff (h : At s call w i r b rest taken buffer) :
    i + 1 = s.buffers.length ↔ rest = [] := by
  have hlength := congrArg List.length h.buffers
  rw [List.length_drop, List.length_cons] at hlength
  rw [← List.length_eq_zero_iff]
  omega

theorem At.index_lt (h : At s call w i r b rest taken buffer) : i < s.buffers.length := by
  have hlength := congrArg List.length h.buffers
  rw [List.length_drop, List.length_cons] at hlength
  omega

variable (hsize : ∀ b ∈ s.buffers, b.length = bufferSize)

include hsize

theorem At.size (h : At s call w i r b rest taken buffer) : b.length = bufferSize := by
  have hmem : b ∈ s.buffers.drop i := by simp [h.buffers]
  exact hsize b (List.mem_of_mem_drop hmem)

theorem At.advance (h : At s call w i r b rest taken buffer) :
    advance s ⟨i, (r : Nat), (taken.length : Nat), buffer⟩ =
      .ok ⟨i, (r : Nat), (taken.length : Nat), buffer⟩ := by
  have hlt := h.read_lt
  rw [OneTimeStream.advance, elementAt_of_drop h.buffers, ok_bind, h.size hsize]
  dsimp only
  rw [if_neg (by omega)]
  rfl

variable (hw : w ≤ bufferSize)

include hw

theorem At.filled_bounds (h : At s call w i r b rest taken buffer) :
    r ≤ filled w b rest ∧ filled w b rest ≤ bufferSize := by
  have hb := h.size hsize
  have hlt := h.read_lt
  by_cases hrest : rest = []
  · rw [filled, if_pos hrest]
    exact ⟨h.read_le hrest, hw⟩
  · rw [filled, if_neg hrest]
    omega

variable (hwrite : s.writePosition = w)

include hwrite

/-- What a pass copies and counts. -/
theorem At.copyOut (h : At s call w i r b rest taken buffer) {c : Nat}
    (hc : c = min (call.count - taken.length) (filled w b rest - r)) :
    ∃ copied, copyOut s call ⟨i, (r : Nat), (taken.length : Nat), buffer⟩ =
        .ok (decide (rest = [] ∧ r + c = w), ⟨i, (r + c : Nat), (taken.length + c : Nat), copied⟩) ∧
      copied.length = call.buffer.length ∧
      (copied.drop call.offset).take (taken.length + c) = taken ++ (b.drop r).take c := by
  have hb := h.size hsize
  have hfilled := h.filled_bounds hsize hw
  have htaken := h.taken_lt
  have hroom := call.room
  have hlt := h.read_lt
  have hlength := h.length
  -- the whole rest of the buffer is copied, as far as there is room
  obtain ⟨n, hn⟩ : ∃ n, n = min (call.count - taken.length) (bufferSize - r) := ⟨_, rfl⟩
  have hdestination : call.offset + taken.length + n ≤ buffer.length := by omega
  have hsource : n ≤ (b.drop r).length := by
    rw [List.length_drop]
    omega
  have hcopy := @arrayCopy_ok _ b buffer r (call.offset + taken.length) n (by omega) hdestination
  refine ⟨_, ?_, (copied_length hsource hdestination).trans hlength,
    (copied_window hsource hdestination (by omega)).trans (by rw [h.window])⟩
  have hplace : (call.offset : Int) + (taken.length : Nat) = (call.offset + taken.length : Nat) := by
    omega
  have hcount : min ((call.count : Int) - (taken.length : Nat)) (b.length - (r : Nat)) = (n : Nat) := by
    omega
  have hcurrent : min ((call.count : Int) - (taken.length : Nat))
      ((if i + 1 = s.buffers.length then s.writePosition else (b.length : Int)) - (r : Nat)) =
        (c : Nat) := by
    rw [hwrite]
    unfold filled at hc hfilled
    by_cases hrest : rest = []
    · rw [if_pos (h.last_iff.mpr hrest)]
      rw [if_pos hrest] at hc hfilled
      omega
    · rw [if_neg (mt h.last_iff.mp hrest)]
      rw [if_neg hrest] at hc hfilled
      omega
  rw [OneTimeStream.copyOut, if_pos h.index_lt, elementAt_of_drop h.buffers, ok_bind]
  dsimp only
  rw [hplace, hcount, hcopy, ok_bind, hcurrent, hwrite]
  have hreturned : decide (i + 1 = s.buffers.length ∧ ((r : Nat) : Int) + (c : Nat) = (w : Nat)) =
      decide (rest = [] ∧ r + c = w) := by
    rw [decide_eq_decide, h.last_iff]
    exact and_congr Iff.rfl (by omega)
  rw [hreturned]
  rfl

end

/-- What is in front of the reader, beginning with the present buffer. -/
theorem contents_drop {w r : Nat} {b : List UInt8} {rest : List (List UInt8)}
    (hr : r ≤ filled w b rest) (hfilled : filled w b rest ≤ b.length) :
    (contents (b :: rest) w).drop r = (b.drop r).take (filled w b rest - r) ++ contents rest w := by
  rw [contents_cons, ← filled, List.drop_append_of_le_length (by rw [List.length_take]; omega),
    List.drop_take]

/-- The reader when the loop ends, where `all` has been in front of it, and what has been read
before. -/
structure Outcome (s : OneTimeStream) (call : ReadCall) (w : Nat) (all : List UInt8) (l : ReadLoop)
    (r : Nat) : Prop where
  readPosition : l.readPosition = r
  read : l.read = (min call.count all.length : Nat)
  bytes : (l.buffer.drop call.offset).take (min call.count all.length) = all.take call.count
  index_lt : l.readIndex < s.buffers.length
  read_le : r ≤ bufferSize
  read_le_contents : r ≤ (contents (s.buffers.drop l.readIndex) w).length
  behind : (contents (s.buffers.drop l.readIndex) w).drop r = all.drop call.count
  /-- Behind the last byte asked for the reader does not go on. -/
  read_pos : call.count ≤ all.length → 0 < r
  /-- If there is less, it goes to the last buffer. -/
  last : all.length < call.count → l.readIndex + 1 = s.buffers.length

section

variable {s : OneTimeStream} {call : ReadCall} {w i r : Nat} {b : List UInt8}
variable {rest : List (List UInt8)} {taken buffer : List UInt8}
variable (hsize : ∀ b ∈ s.buffers, b.length = bufferSize) (hw : w ≤ bufferSize)

include hsize hw

/-- The last pass: all that has been asked for has been read, or the buffer is the last one. -/
theorem At.outcome (h : At s call w i r b rest taken buffer) {c : Nat} {copied : List UInt8}
    (hc : c = min (call.count - taken.length) (filled w b rest - r))
    (hstop : rest = [] ∨ c = call.count - taken.length)
    (hcopied : (copied.drop call.offset).take (taken.length + c) = taken ++ (b.drop r).take c) :
    Outcome s call w (taken ++ (contents (b :: rest) w).drop r)
      ⟨i, (r + c : Nat), (taken.length + c : Nat), copied⟩ (r + c) := by
  have hfilled := h.filled_bounds hsize hw
  have hb := h.size hsize
  have htaken := h.taken_lt
  have hfront : ((b.drop r).take (filled w b rest - r)).length = filled w b rest - r := by
    rw [List.length_take, List.length_drop]
    omega
  have hdrop := contents_drop hfilled.1 (by omega : filled w b rest ≤ b.length)
  obtain ⟨U, hU⟩ : ∃ U, U = (contents (b :: rest) w).drop r := ⟨_, rfl⟩
  rw [← hU] at hdrop ⊢
  have hUlength : U.length = filled w b rest - r + (contents rest w).length := by
    rw [hdrop, List.length_append, hfront]
  -- in both cases the pass takes what is there, as far as it has been asked for
  have hmin : c = min (call.count - taken.length) U.length := by
    rcases hstop with hrest | hcount
    · have hnone : (contents rest w).length = 0 := by simp [hrest, contents]
      omega
    · omega
  have htake : U.take (call.count - taken.length) = (b.drop r).take c := by
    calc U.take (call.count - taken.length) = U.take c := by
          rw [List.take_eq_take_iff]
          omega
      _ = ((b.drop r).take (filled w b rest - r)).take c := by
          rw [hdrop, List.take_append_of_le_length (by omega)]
      _ = (b.drop r).take c := by rw [List.take_take, Nat.min_eq_left (by omega)]
  have hall : (taken ++ U).length = taken.length + U.length := List.length_append
  have hread : taken.length + c = min call.count (taken ++ U).length := by omega
  have hcontents : contents (s.buffers.drop i) w = contents (b :: rest) w := by rw [h.buffers]
  have hlength : U.length = (contents (b :: rest) w).length - r := by rw [hU, List.length_drop]
  have hle : r ≤ (contents (b :: rest) w).length := by
    rw [contents_cons, ← filled, List.length_append, List.length_take]
    omega
  have hbefore : taken.take call.count = taken := List.take_of_length_le (by omega)
  have hbehind : taken.drop call.count = [] := List.drop_eq_nil_of_le (by omega)
  constructor
  case readPosition => rfl
  case read => rw [← hread]
  case bytes => rw [← hread, hcopied, List.take_append, hbefore, htake]
  case index_lt => exact h.index_lt
  case read_le => omega
  case read_le_contents =>
    rw [hcontents]
    omega
  case behind =>
    rw [hcontents, List.drop_append, hbehind, List.nil_append, ← List.drop_drop, ← hU,
      List.drop_eq_drop_iff]
    omega
  case read_pos =>
    intro hle
    omega
  case last =>
    intro hless
    rcases hstop with hrest | hcount
    · exact h.last_iff.mpr hrest
    · omega

omit hw in
/-- At the end of a buffer the loop goes on at the start of the next one. -/
theorem readLoop_next {next : List UInt8} (hbuffers : s.buffers.drop i = b :: next :: rest)
    (fuel : Nat) (k : Int) :
    readLoop s call fuel ⟨i, bufferSize, k, buffer⟩ = readLoop s call fuel ⟨i + 1, 0, k, buffer⟩ := by
  have hmem : b ∈ s.buffers.drop i ∧ next ∈ s.buffers.drop i := by simp [hbuffers]
  have hb := hsize b (List.mem_of_mem_drop hmem.1)
  have hnextSize := hsize next (List.mem_of_mem_drop hmem.2)
  have hnext : s.buffers.drop (i + 1) = next :: rest := by
    rw [← List.drop_drop, hbuffers, List.drop_one, List.tail_cons]
  have hpos := bufferSize_pos
  have hfirst : advance s ⟨i, bufferSize, k, buffer⟩ = .ok ⟨i + 1, 0, k, buffer⟩ := by
    rw [OneTimeStream.advance, elementAt_of_drop hbuffers, ok_bind, hb]
    dsimp only
    rw [if_pos (le_refl _)]
    rfl
  have hsecond : advance s ⟨i + 1, 0, k, buffer⟩ = .ok ⟨i + 1, 0, k, buffer⟩ := by
    rw [OneTimeStream.advance, elementAt_of_drop hnext, ok_bind, hnextSize]
    dsimp only
    rw [if_neg (by omega)]
    rfl
  cases fuel with
  | zero => rfl
  | succ fuel => rw [readLoop, readLoop, hfirst, hsecond]

variable (hwrite : s.writePosition = w)

include hwrite

/-- The loop reads what is in front of the reader, as far as it has been asked for. -/
theorem At.readLoop {fuel : Nat} (h : At s call w i r b rest taken buffer)
    (hfuel : call.count ≤ fuel + taken.length) :
    ∃ l r', readLoop s call fuel ⟨i, (r : Nat), (taken.length : Nat), buffer⟩ = .ok l ∧
      Outcome s call w (taken ++ (contents (b :: rest) w).drop r) l r' := by
  induction fuel generalizing i r b rest taken buffer with
  | zero =>
      have htaken := h.taken_lt
      omega
  | succ fuel ih =>
      have hfilled := h.filled_bounds hsize hw
      have hb := h.size hsize
      have htaken := h.taken_lt
      obtain ⟨c, hc⟩ : ∃ c, c = min (call.count - taken.length) (filled w b rest - r) := ⟨_, rfl⟩
      obtain ⟨copied, hpass, hlength, hcopied⟩ := h.copyOut hsize hw hwrite hc
      rw [OneTimeStream.readLoop, h.advance hsize, ok_bind, hpass]
      dsimp only
      by_cases hstop : rest = [] ∨ c = call.count - taken.length
      · refine ⟨_, r + c, ?_, h.outcome hsize hw hc hstop hcopied⟩
        rw [if_neg]
        rintro ⟨hreturned, hread, -⟩
        rw [decide_eq_false_iff_not] at hreturned
        rcases hstop with hrest | hcount
        · rw [filled, if_pos hrest] at hc
          have hle := h.read_le hrest
          exact hreturned ⟨hrest, by omega⟩
        · omega
      · -- the buffer has been read to its end, and is not the last one
        rw [not_or] at hstop
        obtain ⟨next, rest', rfl⟩ := List.exists_cons_of_ne_nil hstop.1
        rw [filled, if_neg hstop.1] at hc
        have hlt := h.read_lt
        have hend : r + c = bufferSize := by omega
        have hfront : (b.drop r).take c = b.drop r := by
          rw [List.take_of_length_le (by rw [List.length_drop]; omega)]
        have hnext : s.buffers.drop (i + 1) = next :: rest' := by
          rw [← List.drop_drop, h.buffers, List.drop_one, List.tail_cons]
        have hsum : taken.length + c = (taken ++ b.drop r).length := by
          rw [List.length_append, List.length_drop]
          omega
        have hpos := bufferSize_pos
        have hread : At s call w (i + 1) 0 next rest' (taken ++ b.drop r) copied :=
          ⟨hnext, hpos, fun _ => Nat.zero_le _, by omega, hlength, by rw [← hsum, hcopied, hfront]⟩
        have hsplit : taken ++ (contents (b :: next :: rest') w).drop r =
            taken ++ b.drop r ++ (contents (next :: rest') w).drop 0 := by
          rw [contents_cons, if_neg (by simp), List.take_length,
            List.drop_append_of_le_length (by omega), List.drop_zero, List.append_assoc]
        obtain ⟨l, r', hloop, houtcome⟩ := ih hread (by omega)
        refine ⟨l, r', ?_, hsplit ▸ houtcome⟩
        rw [if_pos ⟨by simp, by omega, h.index_lt⟩, hend, readLoop_next hsize h.buffers, hsum]
        exact hloop

end

/-! ## `Read` -/

/-- There is a buffer, and the reader is not at the end of the only one. -/
def Ready (s : OneTimeStream) : Prop :=
  s.buffers ≠ [] ∧ (s.buffers.length = 1 → s.readPosition < bufferSize)

/-- What `Read` does, from the state `s` to the state `s'`. -/
structure ReadSpec (s : OneTimeStream) (call : ReadCall) (w : Nat) (result : ReadResult)
    (s' : OneTimeStream) (r' : Nat) : Prop where
  value : result.value = (min call.count s.unread.length : Nat)
  bytes : result.bytes = s.unread.take call.count
  shape : Shape s' r' w
  left : s'.unread = s.unread.drop call.count
  evt : s'.evt = s.evt
  ne : s'.buffers ≠ []
  length_le : s'.buffers.length ≤ s.buffers.length
  read_pos : call.count ≤ s.unread.length → 0 < r'
  last : s.unread.length < call.count → s'.buffers.length = 1
  resultCall : result.call = call

theorem Shape.unread_eq {s : OneTimeStream} {r w : Nat} (h : Shape s r w) :
    unread s = (contents s.buffers w).drop r := by
  rw [unread, h.readIndex, h.readPosition, h.writePosition]
  rfl

/-- The stream without the buffers in front of the reader. -/
def behindReader (s : OneTimeStream) (l : ReadLoop) : OneTimeStream :=
  { s with buffers := s.buffers.drop l.readIndex, readIndex := 0, readPosition := l.readPosition }

theorem deleteBuffers_eq {s : OneTimeStream} {l : ReadLoop} (h : l.readIndex < s.buffers.length) :
    deleteBuffers s l = .ok (behindReader s l) := by
  rw [deleteBuffers, behindReader]
  split
  · rw [removeRange, if_pos (by omega)]
    rfl
  · have hzero : l.readIndex = 0 := by omega
    simp [hzero]

theorem readLoop_spec {s : OneTimeStream} {r w : Nat} (h : Shape s r w) (hready : s.Ready)
    (call : ReadCall) :
    ∃ l r', readLoop s call (call.count + 1) ⟨s.readIndex, s.readPosition, 0, call.buffer⟩ = .ok l ∧
      Outcome s call w (unread s) l r' := by
  obtain ⟨b, rest, hbuffers⟩ := List.exists_cons_of_ne_nil hready.1
  have hb : b.length = bufferSize := h.size b (by simp [hbuffers])
  have hdrop : s.buffers.drop 0 = b :: rest := hbuffers
  have hpositive := call.positive
  have hread := h.read_le
  rw [h.readIndex, h.readPosition, h.unread_eq, hbuffers]
  by_cases hr : r < bufferSize
  · have hle : rest = [] → r ≤ w := by
      rintro rfl
      have hcontents := h.read_le_contents
      rw [hbuffers, contents, List.length_take] at hcontents
      omega
    have hat : At s call w 0 r b rest [] call.buffer := ⟨hdrop, hr, hle, hpositive, rfl, rfl⟩
    exact hat.readLoop h.size h.write_le h.writePosition (by simp)
  · obtain rfl : r = bufferSize := by omega
    -- the next buffer is the first one with something to read
    cases rest with
    | nil =>
        have hlt := hready.2 (by simp [hbuffers])
        rw [h.readPosition] at hlt
        omega
    | cons next rest =>
        have hnext : s.buffers.drop 1 = next :: rest := by rw [hbuffers, List.drop_one, List.tail_cons]
        have hat : At s call w 1 0 next rest [] call.buffer :=
          ⟨hnext, bufferSize_pos, fun _ => Nat.zero_le _, hpositive, rfl, rfl⟩
        have hunread : (contents (b :: next :: rest) w).drop bufferSize =
            [] ++ (contents (next :: rest) w).drop 0 := by
          rw [← hb]
          simp [contents]
        rw [readLoop_next h.size hdrop, hunread]
        exact hat.readLoop h.size h.write_le h.writePosition (by simp)

/-- **`Read`.** It returns the front of what has not been read, and leaves the rest. -/
theorem readBytes_spec {s : OneTimeStream} {r w : Nat} (h : Shape s r w) (hready : s.Ready)
    (call : ReadCall) :
    ∃ result s' r', s.readBytes call = .ok (result, s') ∧ ReadSpec s call w result s' r' := by
  obtain ⟨l, r', hloop, houtcome⟩ := readLoop_spec h hready call
  have hindex := houtcome.index_lt
  have hlength : (behindReader s l).buffers.length = s.buffers.length - l.readIndex := List.length_drop
  refine ⟨⟨call, l.buffer, l.read⟩, behindReader s l, r', ?_, ?_⟩
  · rw [readBytes, hloop, ok_bind, deleteBuffers_eq hindex]
    rfl
  · have hshape : Shape (behindReader s l) r' w :=
      { readPosition := houtcome.readPosition
        writePosition := h.writePosition
        readIndex := rfl
        size := fun b hb => h.size b (List.mem_of_mem_drop hb)
        read_le := houtcome.read_le
        write_le := h.write_le
        read_le_contents := houtcome.read_le_contents }
    constructor
    case value => exact houtcome.read
    case bytes =>
      show (l.buffer.drop call.offset).take l.read.toNat = _
      rw [houtcome.read, Int.toNat_natCast]
      exact houtcome.bytes
    case shape => exact hshape
    case left =>
      rw [hshape.unread_eq]
      exact houtcome.behind
    case evt => rfl
    case ne =>
      rw [← List.length_pos_iff]
      omega
    case length_le => omega
    case read_pos => exact houtcome.read_pos
    case last =>
      intro hless
      have hlast := houtcome.last hless
      omega
    case resultCall => rfl

/-! ## The loop of `Write` -/

section

variable {call : WriteCall} {buffers : List (List UInt8)} {w k : Nat}

/-- There is no room behind the write position. -/
def Full (buffers : List (List UInt8)) (w : Nat) : Prop := buffers = [] ∨ w = bufferSize

instance (buffers : List (List UInt8)) (w : Nat) : Decidable (Full buffers w) :=
  inferInstanceAs (Decidable (_ ∨ _))

theorem openBuffer_full (hsize : ∀ b ∈ buffers, b.length = bufferSize) (h : Full buffers w) (k : Int) :
    openBuffer ⟨buffers, (w : Nat), k⟩ = ⟨createNewBuffer buffers, (0 : Nat), k⟩ := by
  cases buffers with
  | nil => rfl
  | cons first rest =>
      obtain rfl : w = bufferSize := h.resolve_left (by simp)
      have hfirst := hsize first List.mem_cons_self
      rw [openBuffer]
      dsimp only
      rw [hfirst, if_pos (le_refl _)]
      rfl

theorem openBuffer_open (hsize : ∀ b ∈ buffers, b.length = bufferSize) (hw : w ≤ bufferSize)
    (h : ¬ Full buffers w) (k : Int) :
    openBuffer ⟨buffers, (w : Nat), k⟩ = ⟨buffers, (w : Nat), k⟩ := by
  rw [Full, not_or] at h
  cases buffers with
  | nil => exact absurd rfl h.1
  | cons first rest =>
      have hfirst := hsize first List.mem_cons_self
      have hne := h.2
      rw [openBuffer]
      dsimp only
      rw [hfirst, if_neg (by omega)]

/-- A new buffer adds nothing to the contents. -/
theorem contents_createNewBuffer (hsize : ∀ b ∈ buffers, b.length = bufferSize)
    (h : Full buffers w) : contents (createNewBuffer buffers) 0 = contents buffers w := by
  rw [createNewBuffer, contents_concat, List.take_zero, List.append_nil]
  rcases List.eq_nil_or_concat' buffers with rfl | ⟨front, last, rfl⟩
  · rfl
  · obtain rfl : w = bufferSize := h.resolve_left (by simp)
    have hlast := hsize last (by simp)
    simp [contents_concat, ← hlast]

theorem size_concat {front : List (List UInt8)} {last : List UInt8}
    (hfront : ∀ b ∈ front, b.length = bufferSize) (hlast : last.length = bufferSize) :
    ∀ b ∈ front ++ [last], b.length = bufferSize := by
  intro b hb
  rcases List.mem_append.mp hb with hb | hb
  · exact hfront b hb
  · rw [List.mem_singleton.mp hb, hlast]

/-- In front of a pass there is a buffer with room behind the write position. -/
theorem openBuffer_room (hsize : ∀ b ∈ buffers, b.length = bufferSize) (hw : w ≤ bufferSize)
    (k : Int) :
    ∃ front last v, openBuffer ⟨buffers, (w : Nat), k⟩ = ⟨front ++ [last], (v : Nat), k⟩ ∧
      (∀ b ∈ front ++ [last], b.length = bufferSize) ∧ v < bufferSize ∧
      contents (front ++ [last]) v = contents buffers w ∧
      (front ++ [last]).length = buffers.length + (if Full buffers w then 1 else 0) ∧
      v = if Full buffers w then 0 else w := by
  by_cases hfull : Full buffers w
  · exact ⟨buffers, List.replicate bufferSize 0, 0, openBuffer_full hsize hfull _,
      size_concat hsize List.length_replicate, bufferSize_pos, contents_createNewBuffer hsize hfull,
      by simp [hfull], by simp [hfull]⟩
  · have hroom := hfull
    rw [Full, not_or] at hroom
    obtain ⟨front, last, rfl⟩ := (List.eq_nil_or_concat' buffers).resolve_left hroom.1
    exact ⟨front, last, w, openBuffer_open hsize hw hfull _, hsize, by omega, rfl,
      by simp [hfull], by simp [hfull]⟩

/-- What a pass copies into the last buffer. -/
theorem copyIn_eq {front : List (List UInt8)} {last : List UInt8} (hlast : last.length = bufferSize)
    (hw : w ≤ bufferSize) (hk : k ≤ call.count) {c : Nat}
    (hc : c = min (call.count - k) (bufferSize - w)) :
    ∃ copied, copyIn call ⟨front ++ [last], (w : Nat), (k : Nat)⟩ =
        .ok ⟨front ++ [copied], (w + c : Nat), (k + c : Nat)⟩ ∧
      copied.length = bufferSize ∧
      contents (front ++ [copied]) (w + c) =
        contents (front ++ [last]) w ++ (call.bytes.drop k).take c := by
  have hroom := call.room
  have hsource : c ≤ (call.buffer.drop (call.offset + k)).length := by
    rw [List.length_drop]
    omega
  have hdestination : 0 + w + c ≤ last.length := by omega
  have hcopy := @arrayCopy_ok _ call.buffer last (call.offset + k) w c (by omega) (by omega)
  have hwindow := copied_window hsource hdestination (le_refl c)
  rw [Nat.zero_add, List.drop_zero, List.drop_zero] at hwindow
  have hbytes : (call.bytes.drop k).take c = (call.buffer.drop (call.offset + k)).take c := by
    rw [WriteCall.bytes, List.drop_take, List.drop_drop, List.take_take, Nat.min_eq_left (by omega)]
  have hindex : (front ++ [last]).length - 1 = front.length := by simp
  have hdrop : (front ++ [last]).drop ((front ++ [last]).length - 1) = [last] := by
    rw [hindex, List.drop_left]
  have hcurrent : min ((call.count : Int) - (k : Nat)) (last.length - (w : Nat)) = (c : Nat) := by omega
  have hplace : (call.offset : Int) + (k : Nat) = (call.offset + k : Nat) := by omega
  have hfit : w + c ≤ last.length := by omega
  refine ⟨last.take w ++ (call.buffer.drop (call.offset + k)).take c ++ last.drop (w + c), ?_,
    (copied_length hsource hfit).trans hlast, ?_⟩
  · rw [copyIn]
    dsimp only
    rw [elementAt_of_drop hdrop, ok_bind, hcurrent, hplace, hcopy, ok_bind, hindex,
      List.set_append_right _ _ (le_refl _), Nat.sub_self]
    rfl
  · rw [contents_concat, contents_concat, hwindow, hbytes, List.append_assoc]

/-- The buffers when the loop ends. -/
structure Filled (call : WriteCall) (buffers : List (List UInt8)) (w k : Nat) (l : WriteLoop)
    (w' : Nat) : Prop where
  writePosition : l.writePosition = w'
  size : ∀ b ∈ l.buffers, b.length = bufferSize
  write_le : w' ≤ bufferSize
  contents : contents l.buffers w' = contents buffers w ++ call.bytes.drop k
  ne : l.buffers ≠ []
  length_le : buffers.length ≤ l.buffers.length
  write_pos : k < call.count → 0 < w'
  full : Full buffers w → buffers.length < l.buffers.length
  /-- Where nothing is left to be written, a full buffer still is followed by a new one. -/
  nothing : call.count ≤ k → l.buffers.length = buffers.length + (if Full buffers w then 1 else 0) ∧
    w' = if Full buffers w then 0 else w

/-- A pass that finds room behind the write position, and the passes behind it. -/
theorem writeLoop_filled {fuel : Nat} (hsize : ∀ b ∈ buffers, b.length = bufferSize)
    (hw : w ≤ bufferSize) (hk : k ≤ call.count) (hfuel : call.count < fuel + k) :
    ∃ l w', writeLoop call fuel ⟨buffers, (w : Nat), (k : Nat)⟩ = .ok l ∧
      Filled call buffers w k l w' := by
  induction fuel generalizing buffers w k with
  | zero => omega
  | succ fuel ih =>
      obtain ⟨front, last, v, hopen, hsizes, hv, hcontents, hlength, hplace⟩ :=
        openBuffer_room hsize hw k
      obtain ⟨c, hc⟩ : ∃ c, c = min (call.count - k) (bufferSize - v) := ⟨_, rfl⟩
      obtain ⟨copied, hcopy, hcopied, hwritten⟩ := copyIn_eq (hsizes last (by simp)) hv.le hk hc
      have hnewSize : ∀ b ∈ front ++ [copied], b.length = bufferSize :=
        size_concat (fun b hb => hsizes b (List.mem_append_left _ hb)) hcopied
      have hnewLength : (front ++ [copied]).length = (front ++ [last]).length := by simp
      have hbytes : call.bytes.drop k = (call.bytes.drop k).take c ++ call.bytes.drop (k + c) := by
        rw [← List.drop_drop, List.take_append_drop]
      rw [writeLoop, hopen, hcopy]
      dsimp only
      by_cases hmore : k + c < call.count
      · rw [if_pos (by omega)]
        obtain ⟨l, w', hloop, hfilled⟩ := ih hnewSize (by omega : v + c ≤ bufferSize)
          (by omega : k + c ≤ call.count) (by omega)
        have hle := hfilled.length_le
        refine ⟨l, w', hloop, hfilled.writePosition, hfilled.size, hfilled.write_le, ?_, hfilled.ne,
          by omega, fun _ => hfilled.write_pos hmore, fun hfull => ?_, fun hnothing => by omega⟩
        · rw [hfilled.contents, hwritten, hcontents, List.append_assoc, ← hbytes]
        · rw [if_pos hfull] at hlength
          omega
      · have hlast : call.bytes.drop (k + c) = [] := by
          refine List.drop_eq_nil_of_le ?_
          rw [WriteCall.bytes, List.length_take]
          omega
        refine ⟨_, v + c, if_neg (by omega), ?_⟩
        constructor
        case writePosition => rfl
        case size => exact hnewSize
        case write_le => omega
        case contents =>
          dsimp only
          rw [hwritten, hcontents, hbytes, hlast, List.append_nil, List.take_take, Nat.min_self]
        case ne => simp
        case length_le =>
          dsimp only
          omega
        case write_pos => omega
        case full =>
          intro hfull
          rw [if_pos hfull] at hlength
          dsimp only
          omega
        case nothing =>
          intro hnothing
          have hzero : c = 0 := by omega
          rw [hzero, Nat.add_zero]
          exact ⟨hnewLength.trans hlength, hplace⟩

end

/-! ## `Write` -/

/-- What `Write` does, from the state `s` to the state `s'`. -/
structure WriteSpec (s : OneTimeStream) (call : WriteCall) (r w : Nat) (s' : OneTimeStream)
    (w' : Nat) : Prop where
  shape : Shape s' r w'
  left : s'.unread = s.unread ++ call.bytes
  evt : s'.evt = true
  ready : s'.Ready
  write_pos : 0 < call.count → 0 < w'
  nothing : call.count = 0 →
    s'.buffers.length = s.buffers.length + (if Full s.buffers w then 1 else 0) ∧
      w' = if Full s.buffers w then 0 else w

/-- A write of no bytes leaves those that have not been read. -/
theorem WriteSpec.unread_of_empty {s s' : OneTimeStream} {r w w' : Nat}
    (h : WriteSpec s call r w s' w') (hempty : call.count = 0) : s'.unread = s.unread := by
  rw [h.left, WriteCall.bytes, hempty, List.take_zero, List.append_nil]

theorem WriteSpec.unread_ne {s s' : OneTimeStream} {r w w' : Nat}
    (h : WriteSpec s call r w s' w') (hpos : 0 < call.count) : s'.unread ≠ [] := by
  intro hnil
  have hroom := call.room
  have hlength := congrArg List.length hnil
  rw [h.left, WriteCall.bytes, List.length_append, List.length_take, List.length_drop,
    List.length_nil] at hlength
  omega

/-- **`Write`.** The bytes are put behind those that have not been read. -/
theorem write_spec {s : OneTimeStream} {r w : Nat} (h : Shape s r w) (call : WriteCall) :
    ∃ s' w', s.write call = .ok s' ∧ WriteSpec s call r w s' w' := by
  obtain ⟨l, w', hloop, hfilled⟩ := writeLoop_filled h.size h.write_le (Nat.zero_le call.count)
    (by omega : call.count < call.count + 1 + 0)
  have hcontents := hfilled.contents
  rw [List.drop_zero] at hcontents
  have hle := h.read_le_contents
  refine ⟨{ s with buffers := l.buffers, writePosition := l.writePosition, evt := true }, w', ?_, ?_⟩
  · rw [write, h.writePosition]
    show (writeLoop call (call.count + 1) ⟨s.buffers, (w : Nat), (0 : Nat)⟩).map _ = _
    rw [hloop]
    rfl
  · have hshape : Shape { s with buffers := l.buffers, writePosition := l.writePosition, evt := true }
        r w' :=
      { readPosition := h.readPosition
        writePosition := hfilled.writePosition
        readIndex := h.readIndex
        size := hfilled.size
        read_le := h.read_le
        write_le := hfilled.write_le
        read_le_contents := by
          show r ≤ (contents l.buffers w').length
          rw [hcontents, List.length_append]
          omega }
    constructor
    case shape => exact hshape
    case left =>
      rw [hshape.unread_eq, h.unread_eq]
      show (contents l.buffers w').drop r = _
      rw [hcontents, List.drop_append_of_le_length hle]
    case evt => rfl
    case ready =>
      refine ⟨hfilled.ne, fun hone => ?_⟩
      show s.readPosition < bufferSize
      have hpos := bufferSize_pos
      rw [h.readPosition]
      have hlength := hfilled.length_le
      cases hbuffers : s.buffers with
      | nil =>
          rw [hbuffers, contents, List.length_nil] at hle
          omega
      | cons b rest =>
          rw [hbuffers, List.length_cons] at hlength
          dsimp only at hone
          obtain rfl : rest = [] := List.length_eq_zero_iff.mp (by omega)
          -- a full buffer would have been followed by a second one
          have hroom : ¬ Full s.buffers w := by
            intro hfull
            have hlt := hfilled.full hfull
            rw [hbuffers, List.length_singleton] at hlt
            omega
          have hwrite := h.write_le
          rw [Full, not_or] at hroom
          rw [hbuffers, contents, List.length_take] at hle
          omega
    case write_pos => exact hfilled.write_pos
    case nothing =>
      intro hnothing
      exact hfilled.nothing (by omega)

end InMemoryFuzzing.Utils.OneTimeStream

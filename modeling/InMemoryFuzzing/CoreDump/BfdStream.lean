import InMemoryFuzzing.Base.Loop
import InMemoryFuzzing.Utils.StreamContract

/-!
# `BfdStream`

A section of a core dump as a stream. The test for the end of the stream compares the offset of the
next byte but one with the length, so it holds one byte before the end, and not at the end; a read
into the middle of a buffer copies the temporary buffer as a whole, with the zeros behind what has
been read (`bfdStream_whole_iff`).
-/

namespace InMemoryFuzzing.CoreDump

open Base Platform DotNet Utils

/-- A section, and `bfd_get_section_contents` for it: a range of the section is copied to the start
of the array. -/
structure BfdSection where
  contents : List UInt8
  size_lt : contents.length < 2 ^ 64
  getContents : List UInt8 → Nat → Nat → Option (List UInt8)
  copies : ∀ (location : List UInt8) {offset count : Nat}, offset + count ≤ contents.length →
    count ≤ location.length → getContents location offset count =
      some ((contents.drop offset).take count ++ location.drop count)

structure BfdStream where
  currentSection : Option BfdSection
  currentOffset : Nat
  sectionLength : Nat

namespace BfdStream

/-- `SelectSection` with the section of the name, if there is one; the text of bfd's last error is
left out here and below. -/
def selectSection (s : BfdStream) (name : String) (found : Option BfdSection) :
    Except NetException BfdStream :=
  match found with
  | some bfdSection => .ok { s with
      currentSection := some bfdSection
      sectionLength := bfdSection.contents.length
      currentOffset := 0 }
  | none => .error (.argument ("Section '" ++ name ++ "' could not be found"))

/-- The rest of `Read`, behind its tests. -/
def readSection (s : BfdStream) (bfdSection : BfdSection) (call : ReadCall) :
    Except NetException (ReadResult × BfdStream) := do
  -- a buffer with an offset is filled from a temporary one
  let myBuffer := if call.offset ≠ 0 then List.replicate call.count 0 else call.buffer
  let realCount := min (s.sectionLength - s.currentOffset) call.count
  match bfdSection.getContents myBuffer s.currentOffset realCount with
  | none => .error (.argument "Could not read from BFD")
  | some myBuffer =>
      let buffer ← if call.offset ≠ 0 then
          arrayCopy myBuffer 0 call.buffer call.offset call.count
        else .ok myBuffer
      .ok (⟨call, buffer, realCount⟩, { s with currentOffset := s.currentOffset + realCount })

/-- `Read`. -/
def read (s : BfdStream) (call : ReadCall) : Except NetException (ReadResult × BfdStream) :=
  match s.currentSection with
  | none => .error (.argument "No section selected")
  | some bfdSection =>
      -- end of stream
      if (s.currentOffset + 1) % 2 ^ 64 = s.sectionLength then .ok (⟨call, call.buffer, 0⟩, s)
      else if call.buffer.length < call.count then .error (.argument "Buffer too small")
      else s.readSection bfdSection call

/-! ## Reading until 0 is returned -/

/-- A caller that reads until 0 is returned: the stream, the number of calls, and their results. -/
structure Reading where
  stream : BfdStream
  k : Nat
  results : List ReadResult

/-- The next call. -/
def readNext (calls : Nat → ReadCall) (s : Reading) :
    Except NetException (Reading ⊕ List ReadResult) := do
  let (r, stream) ← s.stream.read (calls s.k)
  if r.value = 0 then .ok (.inr (s.results ++ [r]))
  else .ok (.inl ⟨stream, s.k + 1, s.results ++ [r]⟩)

/-- A section that has been selected, at an offset. -/
def opened (bfdSection : BfdSection) (offset : Nat) : BfdStream :=
  ⟨some bfdSection, offset, bfdSection.contents.length⟩

/-- Whatever has been read before, a section is read from its beginning. -/
theorem selectSection_opened (s : BfdStream) (name : String) (bfdSection : BfdSection) :
    s.selectSection name (some bfdSection) = .ok (opened bfdSection 0) := rfl

/-- Outside of what has been delivered the buffer is unchanged. -/
def Framed (r : ReadResult) : Prop :=
  r.buffer.take r.call.offset = r.call.buffer.take r.call.offset ∧
    r.buffer.drop (r.call.offset + r.value.toNat) =
      r.call.buffer.drop (r.call.offset + r.value.toNat)

/-- The calls return, the last one 0; the contents are delivered and nothing else is changed. -/
def DeliversWhole (bfdSection : BfdSection) (calls : Nat → ReadCall) : Prop :=
  ∃ results, EndsWith (readNext calls) ⟨opened bfdSection 0, 0, []⟩ (.ok results) ∧
    results.flatMap ReadResult.bytes = bfdSection.contents ∧ ∀ r ∈ results, Framed r

/-! ## The condition -/

/-- Where a call begins: behind what the calls before it have asked for, or at the end. -/
def position (calls : Nat → ReadCall) (length : Nat) : Nat → Nat
  | 0 => 0
  | n + 1 => min length (position calls length n + (calls n).count)

/-- The calls that are made: each one begins behind calls that do not begin at the end. -/
def Made (calls : Nat → ReadCall) (length n : Nat) : Prop :=
  ∀ m < n, position calls length m < length

/-- A call does not begin one byte before the end, and if it asks for more than there is, and for a
place in the middle of the buffer, the rest of that place is filled with zeros. -/
def Sound (call : ReadCall) (remaining : Nat) : Prop :=
  remaining ≠ 1 ∧ (call.offset = 0 ∨
    (call.buffer.drop (call.offset + min remaining call.count)).take
        (call.count - min remaining call.count) =
      List.replicate (call.count - min remaining call.count) 0)

/-! ## One call -/

variable {bfdSection : BfdSection} {offset : Nat} {call : ReadCall}

/-- One byte before the end nothing is read. -/
theorem read_early (hoffset : offset + 1 = bfdSection.contents.length) (call : ReadCall) :
    (opened bfdSection offset).read call =
      .ok (⟨call, call.buffer, 0⟩, opened bfdSection offset) := by
  have hsize := bfdSection.size_lt
  have hmod : (offset + 1) % 2 ^ 64 = bfdSection.contents.length := by
    rw [Nat.mod_eq_of_lt (by omega), hoffset]
  simp only [read, opened, hmod, if_true]

/-- How many bytes a call is for. -/
def realCount (bfdSection : BfdSection) (offset : Nat) (call : ReadCall) : Nat :=
  min (bfdSection.contents.length - offset) call.count

/-- The buffer behind the bytes that have been read: with an offset, zeros for the bytes that have
been asked for in vain. -/
def behind (call : ReadCall) (count : Nat) : List UInt8 :=
  if call.offset = 0 then call.buffer.drop count
  else List.replicate (call.count - count) 0 ++ call.buffer.drop (call.offset + call.count)

/-- The result of a call that reads. -/
def delivery (bfdSection : BfdSection) (offset : Nat) (call : ReadCall) : ReadResult where
  call := call
  buffer := call.buffer.take call.offset ++
    ((bfdSection.contents.drop offset).take (realCount bfdSection offset call) ++
      behind call (realCount bfdSection offset call))
  value := realCount bfdSection offset call

theorem readSection_eq (hoffset : offset ≤ bfdSection.contents.length) (call : ReadCall) :
    (opened bfdSection offset).readSection bfdSection call =
      .ok (delivery bfdSection offset call,
        opened bfdSection (offset + realCount bfdSection offset call)) := by
  rw [readSection, opened, delivery, opened, ← realCount]
  have hcount : realCount bfdSection offset call ≤ call.count := Nat.min_le_right _ _
  have hrange : offset + realCount bfdSection offset call ≤ bfdSection.contents.length := by
    rw [realCount]
    omega
  generalize realCount bfdSection offset call = n at hcount hrange ⊢
  have hroom := call.room
  by_cases hzero : call.offset = 0
  · have hcopy := bfdSection.copies call.buffer hrange (by omega)
    simp [hzero, hcopy, behind, bind, Except.bind]
  · have hcopy := bfdSection.copies (List.replicate call.count 0) hrange
      (by rw [List.length_replicate]; exact hcount)
    rw [List.drop_replicate] at hcopy
    have hlength : ((bfdSection.contents.drop offset).take n ++
        List.replicate (call.count - n) 0).length = call.count := by
      simp
      omega
    have harray : arrayCopy _ (0 : Nat) call.buffer call.offset call.count = _ :=
      arrayCopy_ok (by rw [hlength, Nat.zero_add]) hroom
    rw [List.drop_zero, List.take_of_length_le hlength.le, Nat.cast_zero] at harray
    simp [hzero, hcopy, harray, behind, bind, Except.bind]

theorem read_eq (hoffset : offset ≤ bfdSection.contents.length)
    (hend : offset + 1 ≠ bfdSection.contents.length) (call : ReadCall) :
    (opened bfdSection offset).read call = .ok (delivery bfdSection offset call,
      opened bfdSection (offset + realCount bfdSection offset call)) := by
  have hsize := bfdSection.size_lt
  have hroom := call.room
  have hmod : (offset + 1) % 2 ^ 64 ≠ bfdSection.contents.length := by omega
  have hbuffer : ¬call.buffer.length < call.count := by omega
  have hread : (opened bfdSection offset).read call =
      (opened bfdSection offset).readSection bfdSection call :=
    (if_neg hmod).trans (if_neg hbuffer)
  rw [hread, readSection_eq hoffset]

theorem realCount_le (hoffset : offset ≤ bfdSection.contents.length) (call : ReadCall) :
    offset + realCount bfdSection offset call ≤ bfdSection.contents.length := by
  rw [realCount]
  omega

theorem front_length (call : ReadCall) : (call.buffer.take call.offset).length = call.offset := by
  have hroom := call.room
  rw [List.length_take]
  omega

theorem delivered_length (hoffset : offset ≤ bfdSection.contents.length) (call : ReadCall) :
    ((bfdSection.contents.drop offset).take (realCount bfdSection offset call)).length =
      realCount bfdSection offset call := by
  have hle := realCount_le hoffset call
  rw [List.length_take, List.length_drop]
  omega

theorem delivery_bytes (hoffset : offset ≤ bfdSection.contents.length) (call : ReadCall) :
    (delivery bfdSection offset call).bytes =
      (bfdSection.contents.drop offset).take (realCount bfdSection offset call) := by
  rw [ReadResult.bytes, delivery, List.drop_left' (front_length call), Int.toNat_natCast,
    List.take_left' (delivered_length hoffset call)]

/-- What a call leaves behind the bytes it has read is what has been there, without an offset; with
one, only if there have been zeros. -/
theorem delivery_framed (hoffset : offset ≤ bfdSection.contents.length) (call : ReadCall) :
    Framed (delivery bfdSection offset call) ↔
      call.offset = 0 ∨ (call.buffer.drop (call.offset + realCount bfdSection offset call)).take
          (call.count - realCount bfdSection offset call) =
        List.replicate (call.count - realCount bfdSection offset call) 0 := by
  have hcount : realCount bfdSection offset call ≤ call.count := Nat.min_le_right _ _
  have hboth : (call.buffer.take call.offset ++ (bfdSection.contents.drop offset).take
      (realCount bfdSection offset call)).length =
        call.offset + realCount bfdSection offset call := by
    rw [List.length_append, front_length, delivered_length hoffset]
  have hframed : Framed (delivery bfdSection offset call) ↔
      behind call (realCount bfdSection offset call) =
        call.buffer.drop (call.offset + realCount bfdSection offset call) := by
    rw [Framed, delivery, Int.toNat_natCast, List.take_left' (front_length call),
      ← List.append_assoc, List.drop_left' hboth]
    exact and_iff_right rfl
  rw [hframed, behind]
  generalize realCount bfdSection offset call = n at hcount
  by_cases hzero : call.offset = 0
  · simp [hzero]
  · have hsplit : call.buffer.drop (call.offset + n) =
        (call.buffer.drop (call.offset + n)).take (call.count - n) ++
          call.buffer.drop (call.offset + call.count) := by
      have hsum : call.offset + n + (call.count - n) = call.offset + call.count := by omega
      have hparts :=
        (List.take_append_drop (call.count - n) (call.buffer.drop (call.offset + n))).symm
      rwa [List.drop_drop, hsum] at hparts
    rw [if_neg hzero, or_iff_right hzero]
    constructor
    · intro h
      rw [hsplit] at h
      exact (List.append_cancel_right h).symm
    · intro h
      rw [hsplit, h]

/-- A call that reads leaves the rest of the buffer alone if and only if it is sound. -/
theorem framed_iff_sound (hoffset : offset ≤ bfdSection.contents.length)
    (hend : offset + 1 ≠ bfdSection.contents.length) (call : ReadCall) :
    Framed (delivery bfdSection offset call) ↔
      Sound call (bfdSection.contents.length - offset) := by
  have hremaining : bfdSection.contents.length - offset ≠ 1 := by omega
  rw [delivery_framed hoffset, Sound, and_iff_right hremaining, realCount]

/-! ## All calls -/

variable {calls : Nat → ReadCall} {n : Nat}

/-- The calls from one on are sound. -/
def SoundFrom (calls : Nat → ReadCall) (length n : Nat) : Prop :=
  ∀ j, n ≤ j → (∀ i, n ≤ i → i < j → position calls length i < length) →
    Sound (calls j) (length - position calls length j)

theorem soundFrom_iff (length : Nat) : SoundFrom calls length n ↔
    Sound (calls n) (length - position calls length n) ∧
      (position calls length n < length → SoundFrom calls length (n + 1)) := by
  constructor
  · intro h
    refine ⟨h n (Nat.le_refl n) (by intros; omega), ?_⟩
    intro hlt j hj hmade
    refine h j (by omega) ?_
    intro i hi hij
    rcases Nat.eq_or_lt_of_le hi with rfl | hi
    · exact hlt
    · exact hmade i hi hij
  · rintro ⟨hsound, hrest⟩ j hj hmade
    rcases Nat.eq_or_lt_of_le hj with rfl | hj
    · exact hsound
    · exact hrest (hmade n (Nat.le_refl n) hj) j hj (fun i hi hij => hmade i (by omega) hij)

theorem position_le (calls : Nat → ReadCall) (length : Nat) : ∀ n, position calls length n ≤ length
  | 0 => Nat.zero_le length
  | _ + 1 => Nat.min_le_left _ _

theorem position_succ (bfdSection : BfdSection) (calls : Nat → ReadCall) (n : Nat) :
    position calls bfdSection.contents.length n +
        realCount bfdSection (position calls bfdSection.contents.length n) (calls n) =
      position calls bfdSection.contents.length (n + 1) := by
  have hle := position_le calls bfdSection.contents.length n
  rw [position, realCount]
  omega

theorem readNext_early (hoffset : offset + 1 = bfdSection.contents.length)
    (results : List ReadResult) :
    readNext calls ⟨opened bfdSection offset, n, results⟩ =
      .ok (.inr (results ++ [⟨calls n, (calls n).buffer, 0⟩])) := by
  simp [readNext, read_early hoffset, bind, Except.bind]

theorem readNext_eq (hoffset : offset ≤ bfdSection.contents.length)
    (hend : offset + 1 ≠ bfdSection.contents.length) (results : List ReadResult) :
    readNext calls ⟨opened bfdSection offset, n, results⟩ =
      if realCount bfdSection offset (calls n) = 0 then
        .ok (.inr (results ++ [delivery bfdSection offset (calls n)]))
      else .ok (.inl ⟨opened bfdSection (offset + realCount bfdSection offset (calls n)), n + 1,
        results ++ [delivery bfdSection offset (calls n)]⟩) := by
  rw [readNext, read_eq hoffset hend]
  simp [bind, Except.bind, delivery]

/-- What completes the front of a list is its rest. -/
theorem take_append_eq_iff {α : Type} (l : List α) (k : Nat) (rest : List α) :
    l.take k ++ rest = l ↔ rest = l.drop k := by
  constructor
  · intro h
    exact List.append_cancel_left (h.trans (List.take_append_drop k l).symm)
  · rintro rfl
    exact List.take_append_drop k l

/-- The calls from one on return, and deliver the rest of the section if and only if they are
sound. The induction is on what is left. -/
theorem delivers_from (bfdSection : BfdSection) (calls : Nat → ReadCall) (n : Nat)
    (results : List ReadResult) :
    ∃ more, EndsWith (readNext calls)
        ⟨opened bfdSection (position calls bfdSection.contents.length n), n, results⟩
        (.ok (results ++ more)) ∧
      ((more.flatMap ReadResult.bytes =
          bfdSection.contents.drop (position calls bfdSection.contents.length n) ∧
            ∀ r ∈ more, Framed r) ↔
        SoundFrom calls bfdSection.contents.length n) := by
  induction hleft : bfdSection.contents.length - position calls bfdSection.contents.length n
    using Nat.strong_induction_on generalizing n results with
  | _ left ih =>
  subst hleft
  have hle := position_le calls bfdSection.contents.length n
  have hsucc := position_succ bfdSection calls n
  have hbytes := delivery_bytes hle (calls n)
  rw [soundFrom_iff]
  generalize hpos : position calls bfdSection.contents.length n = offset at *
  by_cases hend : offset + 1 = bfdSection.contents.length
  -- nothing is read in front of the last byte
  · refine ⟨_, endsWith_result (readNext_early hend results), ?_⟩
    have hremaining : bfdSection.contents.length - offset = 1 := by omega
    have hlost : bfdSection.contents.drop offset ≠ [] := by
      intro h
      have hlength := congrArg List.length h
      rw [List.length_drop, hremaining] at hlength
      cases hlength
    constructor
    · rintro ⟨h, -⟩
      exact (hlost (by simpa [ReadResult.bytes] using h.symm)).elim
    · rintro ⟨h, -⟩
      exact (h.1 hremaining).elim
  have hnext : readNext calls ⟨opened bfdSection offset, n, results⟩ = _ :=
    readNext_eq hle hend results
  have hframed := framed_iff_sound hle hend (calls n)
  by_cases hzero : realCount bfdSection offset (calls n) = 0
  -- a call is for at least one byte, so the end has been reached
  · rw [if_pos hzero] at hnext
    have hpositive := (calls n).positive
    have hlast : offset = bfdSection.contents.length := by
      rw [realCount] at hzero
      omega
    refine ⟨_, endsWith_result hnext, ?_⟩
    rw [List.flatMap_singleton, hbytes, hzero, List.take_zero,
      List.drop_eq_nil_of_le hlast.ge, List.forall_mem_singleton, hframed]
    constructor
    · intro h
      exact ⟨h.2, fun hlt => absurd hlast hlt.ne⟩
    · intro h
      exact ⟨rfl, h.1⟩
  · rw [if_neg hzero, hsucc] at hnext
    have hlt : offset < bfdSection.contents.length := by
      rw [realCount] at hzero
      omega
    obtain ⟨more, hends, hrest⟩ := ih _ (by omega) (n + 1)
      (results ++ [delivery bfdSection offset (calls n)]) rfl
    refine ⟨delivery bfdSection offset (calls n) :: more, ?_, ?_⟩
    · rw [List.append_cons]
      exact EndsWith.of_round hnext hends
    rw [List.flatMap_cons, hbytes, take_append_eq_iff, List.drop_drop, hsucc, List.forall_mem_cons,
      ← hrest, hframed]
    constructor
    · rintro ⟨hcontents, hsound, hmore⟩
      exact ⟨hsound, fun _ => ⟨hcontents, hmore⟩⟩
    · rintro ⟨hsound, hmore⟩
      exact ⟨(hmore hlt).1, hsound, (hmore hlt).2⟩

/-! ## Every section, every sequence of calls -/

/-- The contents are delivered, and nothing else is changed, if and only if no call begins one byte
before the end, and a call that asks for more than there is does not put zeros over anything. -/
theorem bfdStream_whole_iff (bfdSection : BfdSection) (calls : Nat → ReadCall) :
    DeliversWhole bfdSection calls ↔ ∀ n, Made calls bfdSection.contents.length n →
      Sound (calls n) (bfdSection.contents.length - position calls bfdSection.contents.length n) := by
  obtain ⟨results, hends, hresults⟩ := delivers_from bfdSection calls 0 []
  have hsound : SoundFrom calls bfdSection.contents.length 0 ↔
      ∀ n, Made calls bfdSection.contents.length n → Sound (calls n)
        (bfdSection.contents.length - position calls bfdSection.contents.length n) := by
    simp [SoundFrom, Made]
  rw [← hsound, ← hresults]
  constructor
  · rintro ⟨other, hother, hwhole⟩
    cases hother.unique hends
    exact hwhole
  · intro h
    exact ⟨results, hends, h⟩

/-- A section of one byte. -/
def oneByte : BfdSection where
  contents := [7]
  size_lt := by norm_num
  getContents location offset count :=
    some ((List.drop offset [7]).take count ++ location.drop count)
  copies _ _ _ _ _ := rfl

def askForOne : ReadCall := ⟨[0], 0, 1, by simp, by simp⟩

/-- The byte of a section of one byte is never read. -/
theorem one_byte_not_delivered : ¬DeliversWhole oneByte fun _ => askForOne := by
  rintro ⟨results, hends, hcontents, -⟩
  have hfirst : readNext (fun _ => askForOne) ⟨opened oneByte 0, 0, []⟩ =
      .ok (.inr [⟨askForOne, [0], 0⟩]) := rfl
  cases hends.unique (endsWith_result hfirst)
  cases hcontents

end BfdStream

end InMemoryFuzzing.CoreDump

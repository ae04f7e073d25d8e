import InMemoryFuzzing.Base.Drain
import InMemoryFuzzing.Base.Locate
import InMemoryFuzzing.Platform.CLib
import InMemoryFuzzing.Platform.DotNet

/-!
# The wire format and what a receiver makes of a byte stream

`<FUZZ><receiver 4chars><length 2byte><data>`, as the header comment of
`remote_control.c` describes it. `frame` is the encoding both senders produce.

`framing need` is the abstract receiver: find the magic word, wait for the ten
header bytes, wait for the announced data, hand the packet over, continue
behind it. The C server and the C# client are both refinements of it; they
differ only in `need`, the number of bytes from a magic word on that must be in
the buffer before it is noticed (the C loop stops four bytes before the end,
`FindFirstOccurance` five). A negative length field is where both leave the
protocol, so the abstract receiver refuses there.
-/

namespace InMemoryFuzzing.RemoteControl

open Base Platform

/-- The magic word `FUZZ`. -/
def magic : List UInt8 := [0x46, 0x55, 0x5A, 0x5A]

/-- A packet as it is handed to the packet handlers. -/
structure Packet where
  receiver : List UInt8
  data : List UInt8
  deriving DecidableEq, Repr

/-- The bytes of a packet on the wire. -/
def frame (p : Packet) : List UInt8 := magic ++ p.receiver ++ toLE 2 p.data.length ++ p.data

/-- Bytes of a frame before its data. -/
def headerSize : Nat := 10

/-- The signed 16-bit length field of a buffer that starts with a header. -/
def lengthField (header : List UInt8) : Int := CLib.int16 (fromLE ((header.drop 8).take 2))

/-- The packet at the start of a buffer, given its data length. -/
def packetAt (buf : List UInt8) (dataLength : Nat) : Packet :=
  ⟨(buf.drop 4).take 4, (buf.drop headerSize).take dataLength⟩

/-- What a receiver does once the magic word is at the start of the buffer. -/
def headStep (buf : List UInt8) : Outcome UInt8 Packet :=
  if buf.length < headerSize then .wait buf
  else if lengthField buf < 0 then .fail
  else if (buf.length : Int) < headerSize + lengthField buf then .wait buf
  else .item (packetAt buf (lengthField buf).toNat)
    (buf.drop (headerSize + (lengthField buf).toNat))

/-- One step of a receiver: search, then look at the located header. -/
def frameStep (need : Nat) (buf : List UInt8) : Outcome UInt8 Packet :=
  match locate magic need buf with
  | none => .wait buf
  | some i => headStep (buf.drop i)

@[simp] theorem magic_length : magic.length = 4 := rfl

/-! ## The length field and the header do not depend on later bytes -/

theorem lengthField_append {buf : List UInt8} (h : headerSize ≤ buf.length)
    (more : List UInt8) : lengthField (buf ++ more) = lengthField buf := by
  have hten : 10 ≤ buf.length := h
  rw [lengthField, lengthField, List.drop_append_of_le_length (by omega),
    List.take_append_of_le_length (by simp; omega)]

theorem packetAt_append {buf : List UInt8} {n : Nat} (h : headerSize + n ≤ buf.length)
    (more : List UInt8) : packetAt (buf ++ more) n = packetAt buf n := by
  have hten : 10 + n ≤ buf.length := h
  simp only [packetAt, headerSize, Packet.mk.injEq]
  constructor
  · rw [List.drop_append_of_le_length (by omega), List.take_append_of_le_length (by simp; omega)]
  · rw [List.drop_append_of_le_length (by omega), List.take_append_of_le_length (by simp; omega)]

/-! ## Inversion of one step at a located header -/

theorem headStep_item {buf rest : List UInt8} {p : Packet} :
    headStep buf = .item p rest ↔ ∃ n : Nat, lengthField buf = n ∧
      headerSize + n ≤ buf.length ∧ p = packetAt buf n ∧ rest = buf.drop (headerSize + n) := by
  unfold headStep
  constructor
  · intro h
    split at h
    · cases h
    · split at h
      · cases h
      · split at h
        · cases h
        · injection h with hp hrest
          exact ⟨(lengthField buf).toNat, by omega, by omega, hp.symm, hrest.symm⟩
  · rintro ⟨n, hn, hlen, rfl, rfl⟩
    rw [if_neg (by omega), if_neg (by omega), if_neg (by omega), hn]
    rfl

theorem headStep_wait {buf kept : List UInt8} :
    headStep buf = .wait kept ↔ kept = buf ∧ (buf.length < headerSize ∨
      0 ≤ lengthField buf ∧ (buf.length : Int) < headerSize + lengthField buf) := by
  unfold headStep
  constructor
  · intro h
    split at h
    · injection h with h
      exact ⟨h.symm, Or.inl ‹_›⟩
    · split at h
      · cases h
      · split at h
        · injection h with h
          exact ⟨h.symm, Or.inr ⟨by omega, ‹_›⟩⟩
        · cases h
  · rintro ⟨rfl, hshort | ⟨hpos, hshort⟩⟩
    · rw [if_pos hshort]
    · rw [if_neg (by omega : ¬ lengthField kept < 0), if_pos hshort, ite_self]

theorem headStep_fail {buf : List UInt8} :
    headStep buf = .fail ↔ headerSize ≤ buf.length ∧ lengthField buf < 0 := by
  unfold headStep
  constructor
  · intro h
    split at h
    · cases h
    · split at h
      · exact ⟨by omega, ‹_›⟩
      · split at h <;> cases h
  · rintro ⟨hlen, hneg⟩
    rw [if_neg (by omega), if_pos hneg]

/-! ## The abstract receiver is a consumer -/

theorem frameStep_of_none {need : Nat} {buf : List UInt8} (h : locate magic need buf = none) :
    frameStep need buf = .wait buf := by
  unfold frameStep
  rw [h]

theorem frameStep_of_some {need i : Nat} {buf : List UInt8}
    (h : locate magic need buf = some i) : frameStep need buf = headStep (buf.drop i) := by
  unfold frameStep
  rw [h]

/-- A step that completes or refuses something has located a header. -/
theorem frameStep_item {need : Nat} {buf rest : List UInt8} {p : Packet}
    (h : frameStep need buf = .item p rest) :
    ∃ i, locate magic need buf = some i ∧ headStep (buf.drop i) = .item p rest := by
  cases hl : locate magic need buf with
  | none => rw [frameStep_of_none hl] at h; cases h
  | some i => exact ⟨i, rfl, frameStep_of_some hl ▸ h⟩

theorem frameStep_fail {need : Nat} {buf : List UInt8} (h : frameStep need buf = .fail) :
    ∃ i, locate magic need buf = some i ∧ headStep (buf.drop i) = .fail := by
  cases hl : locate magic need buf with
  | none => rw [frameStep_of_none hl] at h; cases h
  | some i => exact ⟨i, rfl, frameStep_of_some hl ▸ h⟩

/-- More input behind a located header is more input at its start. -/
theorem frameStep_append_of_some {need i : Nat} {buf : List UInt8} (hneed : 4 ≤ need)
    (h : locate magic need buf = some i) (more : List UInt8) :
    frameStep need (buf ++ more) = headStep (buf.drop i ++ more) := by
  have hi := (locate_eq_some.mp h).1
  rw [frameStep_of_some (locate_append hneed h), List.drop_append_of_le_length (by omega)]

/-- The abstract receiver. -/
def framing (need : Nat) (hneed : 4 ≤ need) : Consumer UInt8 Packet where
  step := frameStep need
  item_shrinks := by
    intro buf out rest h
    obtain ⟨i, _, hs⟩ := frameStep_item h
    obtain ⟨n, _, hlen, _, rfl⟩ := headStep_item.mp hs
    simp only [headerSize, List.length_drop] at hlen ⊢
    omega
  item_append := by
    intro buf out rest more h
    obtain ⟨i, hl, hs⟩ := frameStep_item h
    obtain ⟨n, hn, hlen, rfl, rfl⟩ := headStep_item.mp hs
    rw [frameStep_append_of_some hneed hl]
    refine headStep_item.mpr ⟨n, ?_, ?_, ?_, ?_⟩
    · rw [lengthField_append (by omega), hn]
    · rw [List.length_append]; omega
    · rw [packetAt_append hlen]
    · rw [List.drop_append_of_le_length hlen]
  wait_append := by
    intro buf kept more h
    cases hl : locate magic need buf with
    | none =>
        rw [frameStep_of_none hl] at h
        injection h with h
        rw [h]
    | some i =>
        rw [frameStep_of_some hl] at h
        obtain ⟨rfl, _⟩ := headStep_wait.mp h
        rw [frameStep_append_of_some hneed hl,
          frameStep_of_some (locate_drop_append hneed hl), List.drop_zero]
  fail_append := by
    intro buf more h
    obtain ⟨i, hl, hs⟩ := frameStep_fail h
    obtain ⟨hlen, hneg⟩ := headStep_fail.mp hs
    rw [frameStep_append_of_some hneed hl]
    refine headStep_fail.mpr ⟨by rw [List.length_append]; omega, ?_⟩
    rw [lengthField_append hlen]
    exact hneg

/-! ## Negative length fields -/

/-- Walking the buffer frame by frame, a header with a negative length field is
located. -/
inductive LocatesNegative (need : Nat) : List UInt8 → Prop
  | here {buf i} : locate magic need buf = some i → headerSize ≤ (buf.drop i).length →
      lengthField (buf.drop i) < 0 → LocatesNegative need buf
  | later {buf i} {n : Nat} : locate magic need buf = some i →
      lengthField (buf.drop i) = n → headerSize + n ≤ (buf.drop i).length →
      LocatesNegative need ((buf.drop i).drop (headerSize + n)) → LocatesNegative need buf

/-- The abstract receiver refuses exactly the buffers in which the walk locates
a negative length. -/
theorem drain_kept_eq_none {need : Nat} (hneed : 4 ≤ need) {buf : List UInt8} :
    ((framing need hneed).drain buf).kept = none ↔ LocatesNegative need buf := by
  constructor
  · intro h
    induction buf using (framing need hneed).drain_induction with
    | item buf out rest hs ih =>
        rw [Consumer.drain_item hs] at h
        obtain ⟨i, hl, hstep⟩ := frameStep_item hs
        obtain ⟨n, hn, hlen, _, rfl⟩ := headStep_item.mp hstep
        exact .later hl hn hlen (ih h)
    | wait buf kept hs =>
        rw [Consumer.drain_wait hs] at h
        cases h
    | fail buf hs =>
        obtain ⟨i, hl, hstep⟩ := frameStep_fail hs
        obtain ⟨hlen, hneg⟩ := headStep_fail.mp hstep
        exact .here hl hlen hneg
  · intro h
    induction h with
    | here hl hlen hneg =>
        have hs : (framing need hneed).step _ = .fail :=
          (frameStep_of_some hl).trans (headStep_fail.mpr ⟨hlen, hneg⟩)
        rw [Consumer.drain_fail hs]
    | later hl hn hlen _ ih =>
        have hs : (framing need hneed).step _ = .item _ _ :=
          (frameStep_of_some hl).trans (headStep_item.mpr ⟨_, hn, hlen, rfl, rfl⟩)
        rw [Consumer.drain_item hs]
        exact ih

end InMemoryFuzzing.RemoteControl

import InMemoryFuzzing.RemoteControl.Framing

/-!
# `receive_packet_loop`

The server's receiver as `remote_control.c` computes it: a 10001-byte buffer,
the position up to which it is filled, and after every `read` a `for` loop over
`c` that looks for the magic word, hands complete packets to `process_packet`
and moves what is left to the start of the buffer.

All positions and lengths are C `int`s; `data_length` is the signed 16-bit value
taken from the network. The scan therefore keeps a record of every access it
makes, and an access outside the allocated block is a `fault`, not a value. The
loop index is reset to `-1` after a packet, so the scan need not terminate: it
runs on fuel, and `none` means that it has not left the loop yet.
-/

namespace InMemoryFuzzing.RemoteControl

open Base Platform

/-! ## The buffer -/

/-- The block allocated by `malloc(10001)`. -/
structure RecvBuffer where
  bytes : List UInt8
  size : bytes.length = 10001

/-- `buffer[i]`, `none` outside the block. -/
def RecvBuffer.load (buffer : RecvBuffer) (i : Int) : Option UInt8 :=
  if 0 ≤ i then buffer.bytes[i.toNat]? else none

/-- Store a run of bytes at `position`, `none` if it leaves the block. -/
def RecvBuffer.store (buffer : RecvBuffer) (position : Int) (chunk : List UInt8) :
    Option RecvBuffer :=
  if h : 0 ≤ position ∧ position + chunk.length ≤ 10001 then
    some ⟨buffer.bytes.take position.toNat ++ chunk ++
      buffer.bytes.drop (position.toNat + chunk.length), by
        have := buffer.size
        simp only [List.length_append, List.length_take, List.length_drop]
        omega⟩
  else none

/-- `copy_to_start`: `memmove` within the block, `none` if it reads outside. -/
def RecvBuffer.copyToStart (buffer : RecvBuffer) (startIndex length : Int) :
    Option RecvBuffer :=
  if h : 0 ≤ startIndex ∧ 0 ≤ length ∧ startIndex + length ≤ 10001 then
    some ⟨(buffer.bytes.drop startIndex.toNat).take length.toNat ++
      buffer.bytes.drop length.toNat, by
        have := buffer.size
        simp only [List.length_append, List.length_take, List.length_drop]
        omega⟩
  else none

/-! ## The scan over `c` -/

/-- What the scan does to memory, and what it hands on. -/
inductive Access
  /-- A read of `buffer[index]`. -/
  | load (index : Int)
  /-- `copy_to_start(buffer, startIndex, length)`. -/
  | copyToStart (startIndex length : Int)
  /-- `process_packet(receiver, buffer + dataStart, dataLength)`, with the bytes
  found there. -/
  | processPacket (receiver data : List UInt8) (dataStart dataLength : Int)
  deriving DecidableEq, Repr

/-- An access together with `write_pos` at the time. -/
structure Event where
  writePos : Int
  access : Access
  deriving DecidableEq, Repr

/-- The variables of the scan. -/
structure Scan where
  buffer : RecvBuffer
  writePos : Int
  c : Int

/-- How an iteration of the loop body ends. -/
inductive Flow
  /-- At the end of the body, `c++` done. -/
  | next (s : Scan)
  /-- Left by `break`. -/
  | leave (s : Scan)
  /-- An access outside the allocated block. -/
  | fault

/-- `buffer[i] == 'F' && buffer[i+1] == 'U' && ...`: the indices read, and the
verdict (`none` if one of them is outside the block). -/
def compareWord (buffer : RecvBuffer) : List UInt8 → Int → List Access × Option Bool
  | [], _ => ([], some true)
  | b :: rest, i =>
      match buffer.load i with
      | none => ([.load i], none)
      | some x =>
          if x = b then
            let r := compareWord buffer rest (i + 1)
            (.load i :: r.1, r.2)
          else ([.load i], some false)

/-- `extract_packet`: `strncpy` of the receiver, then `process_packet` on the
data in place. -/
def extractPacket (buffer : RecvBuffer) (startOffset dataLength : Int) : List Access :=
  [.load (startOffset + 4), .load (startOffset + 5), .load (startOffset + 6),
    .load (startOffset + 7),
    .processPacket (CLib.strncpy 4 (buffer.bytes.drop (startOffset + 4).toNat))
      ((buffer.bytes.drop (startOffset + 10).toNat).take dataLength.toNat)
      (startOffset + 10) dataLength]

/-- Move the packet at `c` to the start of the buffer and wait for the rest. -/
def keepIncomplete (s : Scan) : List Access × Flow :=
  let moved := [.copyToStart s.c (s.writePos - s.c)]
  match s.buffer.copyToStart s.c (s.writePos - s.c) with
  | some buffer => (moved, .leave ⟨buffer, s.writePos - s.c, s.c⟩)
  | none => (moved, .fault)

/-- Hand the packet at `c` on, move what follows it to the start and restart
the scan (`c = -1`, then `c++`). -/
def takePacket (s : Scan) (dataLength : Int) : List Access × Flow :=
  let startIndex := s.c + 10 + dataLength
  let length := s.writePos - s.c - 10 - dataLength
  let done := extractPacket s.buffer s.c dataLength ++ [.copyToStart startIndex length]
  match s.buffer.copyToStart startIndex length with
  | some buffer => (done, .next ⟨buffer, length, -1 + 1⟩)
  | none => (done, .fault)

/-- The branch below a magic word at `c`. -/
def foundMagic (s : Scan) : List Access × Flow :=
  if s.writePos - s.c ≥ 10 then
    match s.buffer.load (s.c + 8), s.buffer.load (s.c + 9) with
    | some b0, some b1 =>
        let dataLength := CLib.readInt16T b0 b1
        let r := if s.writePos - s.c ≥ 10 + dataLength then takePacket s dataLength
          else keepIncomplete s
        ([.load (s.c + 8), .load (s.c + 9)] ++ r.1, r.2)
    | _, _ => ([.load (s.c + 8), .load (s.c + 9)], .fault)
  else if s.c > 0 then keepIncomplete s
  else ([], .leave s)

/-- The body of the `for` loop. -/
def scanBody (s : Scan) : List Access × Flow :=
  match compareWord s.buffer magic s.c with
  | (loads, none) => (loads, .fault)
  | (loads, some false) => (loads, .next { s with c := s.c + 1 })
  | (loads, some true) => (loads ++ (foundMagic s).1, (foundMagic s).2)

/-- The events of one iteration. -/
def bodyEvents (s : Scan) : List Event := (scanBody s).1.map (Event.mk s.writePos)

/-- `for(...; c < write_pos-3; c++)`: the events, and the variables when the
loop is left (`none` after a fault). Without fuel left the answer is `none`. -/
def scanRun : Nat → Scan → Option (List Event × Option Scan)
  | 0, _ => none
  | fuel + 1, s =>
      if s.c < s.writePos - 3 then
        match (scanBody s).2 with
        | .fault => some (bodyEvents s, none)
        | .leave s' => some (bodyEvents s, some s')
        | .next s' => (scanRun fuel s').map fun r => (bodyEvents s ++ r.1, r.2)
      else some ([], some s)

/-- The packets handed to `process_packet`. -/
def handed (events : List Event) : List Packet :=
  events.filterMap fun e => match e.access with
    | .processPacket receiver data _ _ => some ⟨receiver, data⟩
    | _ => none

/-- An access stays inside the filled part of the buffer, and the length handed
to `process_packet` is not negative. -/
def Access.InBounds (writePos : Int) : Access → Prop
  | .load index => 0 ≤ index ∧ index ≤ writePos
  | .copyToStart startIndex length =>
      0 ≤ startIndex ∧ 0 ≤ length ∧ startIndex + length ≤ writePos
  | .processPacket _ _ dataStart dataLength =>
      0 ≤ dataLength ∧ 0 ≤ dataStart ∧ dataStart + dataLength ≤ writePos

instance (writePos : Int) : (a : Access) → Decidable (a.InBounds writePos)
  | .load _ => inferInstanceAs (Decidable (_ ∧ _))
  | .copyToStart _ _ => inferInstanceAs (Decidable (_ ∧ _))
  | .processPacket _ _ _ _ => inferInstanceAs (Decidable (_ ∧ _))

/-- The access was in bounds when it was made. -/
def Event.InBounds (e : Event) : Prop := e.access.InBounds e.writePos

instance (e : Event) : Decidable e.InBounds :=
  inferInstanceAs (Decidable (e.access.InBounds e.writePos))

/-! ## The read loop -/

/-- How many bytes a `read` of `request` bytes returns when `available` bytes
have not been read yet: the kernel may return any positive number up to both,
and returns 0 for an empty request or at the end of the input. -/
def readCount (request : Int) (available choice : Nat) : Nat :=
  min (max choice 1) (min request.toNat available)

/-- Every number of bytes the kernel may return is the answer to some choice. -/
theorem readCount_choice {request : Int} {available n : Nat} (hpos : 0 < n)
    (hreq : (n : Int) ≤ request) (havail : n ≤ available) :
    readCount request available n = n := by
  unfold readCount
  omega

/-- A call of `read`: the size requested, and the bytes of the input that were
still unread. -/
structure ReadCall where
  request : Int
  unread : List UInt8
  deriving DecidableEq, Repr

/-- What a run of the receive loop did. -/
structure Transcript where
  reads : List ReadCall
  handed : List Packet
  /-- The loop was left because `read` returned no bytes, not by a fault. -/
  returned : Bool

/-- Put an iteration in front of the rest of the run. -/
def Transcript.after (call : ReadCall) (packets : List Packet) (t : Transcript) : Transcript :=
  ⟨call :: t.reads, packets ++ t.handed, t.returned⟩

/-- `receive_packet_loop` on the connection input `unread`; `choices` are the
kernel's answers to the successive reads. -/
def receivePacketLoop : Nat → (Nat → Nat) → RecvBuffer → Int → List UInt8 → Option Transcript
  | 0, _, _, _, _ => none
  | fuel + 1, choices, buffer, writePos, unread =>
      let call : ReadCall := ⟨10000 - writePos, unread⟩
      let n := readCount call.request unread.length (choices 0)
      if n > 0 then
        -- the bytes read, and the terminator behind them
        match buffer.store writePos (unread.take n ++ [0]) with
        | none => some ⟨[call], [], false⟩
        | some filled =>
            match scanRun fuel ⟨filled, writePos + n, 0⟩ with
            | none => none
            | some (events, none) => some ⟨[call], handed events, false⟩
            | some (events, some s) =>
                (receivePacketLoop fuel (fun k => choices (k + 1)) s.buffer s.writePos
                  (unread.drop n)).map (Transcript.after call (handed events))
      else some ⟨[call], [], true⟩

end InMemoryFuzzing.RemoteControl

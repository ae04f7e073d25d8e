import InMemoryFuzzing.Platform.Utf8
import InMemoryFuzzing.Utils.StreamContract

/-!
# `HexFilterStream`

Bytes are written as two hexadecimal digits each, and two characters are read for a byte. `Read`
puts the right bytes into the buffer (`read_hexText`), but returns the number of characters it has
read (`hexFilterStream_faithful_iff`). `FixedByteGenerator` does not look at that number.
-/

namespace InMemoryFuzzing.Utils

open Base Platform DotNet

/-! ## `Write` -/

/-- A digit in upper case. -/
def upperDigit (d : Nat) : Char := d.digitChar.toUpper

/-- `string.Format ("{0:X2}", b)`. -/
def formatX2 (b : UInt8) : List Char := [upperDigit (b.toNat / 16), upperDigit (b.toNat % 16)]

/-- The digits of bytes. -/
def hexDigits (bytes : List UInt8) : List Char := bytes.flatMap formatX2

namespace HexFilterStream

/-- `Write`: the contents of the base stream behind it. -/
def write (base buffer : List UInt8) (offset count : Nat) : Except NetException (List UInt8) :=
  if offset + count ≤ buffer.length then
    .ok (base ++ utf8GetBytes (String.ofList (hexDigits ((buffer.drop offset).take count))))
  else .error .outOfRange

/-! ## `Read` -/

/-- The variables of the loop in `Read`; `unread` is what the reader has in front of it. -/
structure ReadLoop where
  completeRead : Nat
  buffer : List UInt8
  unread : List Char
  deriving DecidableEq, Repr

/-- The loop from `i` on, with `n` rounds to go. -/
def readLoop (offset : Nat) : Nat → Nat → ReadLoop → Except NetException ReadLoop
  | 0, _, l => .ok l
  | n + 1, i, l =>
      match l.unread with
      | c₀ :: c₁ :: unread =>
          match parseDigits 16 [c₀, c₁] with
          | none => .error .format
          | some value =>
              if i + offset < l.buffer.length then
                readLoop offset n (i + 1) ⟨l.completeRead + 2,
                  l.buffer.set (i + offset) (UInt8.ofNat value), unread⟩
              else .error .outOfRange
      -- `read < chars.Length`
      | _ => .ok { l with unread := [] }

/-- `Read`. -/
def read (buffer : List UInt8) (offset count : Nat) (unread : List Char) :
    Except NetException ReadLoop :=
  readLoop offset count 0 ⟨0, buffer, unread⟩

/-- The characters of the base stream. -/
def readerText (base : List UInt8) : List Char := (utf8GetString base).toList

/-! ## One call -/

theorem parseDigits_formatX2 (b : UInt8) :
    parseDigits 16 (formatX2 b) = some b.toNat := by
  have hdigit : ∀ d < 16, digitValue (upperDigit d) = some d := by
    intro d hd
    interval_cases d <;> rfl
  have hpush : ∀ acc d, d < 16 → pushDigit 16 acc (upperDigit d) = some (acc * 16 + d) := by
    intro acc d hd
    rw [pushDigit, hdigit d hd]
    exact if_pos hd
  have hb : b.toNat < 256 := b.toNat_lt
  rw [formatX2, parseDigits, List.foldlM_cons, hpush _ _ (by omega)]
  show [upperDigit (b.toNat % 16)].foldlM (pushDigit 16) (0 * 16 + b.toNat / 16) = _
  rw [List.foldlM_cons, hpush _ _ (Nat.mod_lt _ (by omega))]
  show some ((0 * 16 + b.toNat / 16) * 16 + b.toNat % 16) = _
  congr 1
  omega

/-- The loop on the digits of bytes. -/
theorem readLoop_hexDigits {offset i n : Nat} {buffer : List UInt8}
    (hroom : i + offset + n ≤ buffer.length) (bytes : List UInt8) (completeRead : Nat) :
    readLoop offset n i ⟨completeRead, buffer, hexDigits bytes⟩ =
      .ok ⟨completeRead + 2 * (bytes.take n).length,
        buffer.take (i + offset) ++ bytes.take n ++
          buffer.drop (i + offset + (bytes.take n).length), hexDigits (bytes.drop n)⟩ := by
  induction n generalizing i buffer bytes completeRead with
  | zero => simp [readLoop]
  | succ n ih =>
      cases bytes with
      | nil => simp [readLoop, hexDigits]
      | cons b bytes =>
          have hunread : hexDigits (b :: bytes) =
              upperDigit (b.toNat / 16) :: upperDigit (b.toNat % 16) :: hexDigits bytes := rfl
          have hparse := parseDigits_formatX2 b
          rw [formatX2] at hparse
          have hlt : i + offset < buffer.length := by omega
          have hset : (buffer.set (i + offset) b).take (i + 1 + offset) =
              buffer.take (i + offset) ++ [b] := by
            have hsucc : i + 1 + offset = i + offset + 1 := by omega
            rw [hsucc, List.take_add_one, List.take_set_of_le (Nat.le_refl _),
              List.getElem?_set_self hlt]
            rfl
          have hdrop : ∀ m, (buffer.set (i + offset) b).drop (i + 1 + offset + m) =
              buffer.drop (i + offset + (m + 1)) := by
            intro m
            have hplace : i + 1 + offset + m = i + offset + (m + 1) := by omega
            rw [hplace, List.drop_set_of_lt (by omega)]
          rw [readLoop]
          simp only [hunread, hparse, hlt, if_true, UInt8.ofNat_toNat]
          rw [ih (by rw [List.length_set]; omega), hset, hdrop]
          simp only [List.take_succ_cons, List.length_cons, List.drop_succ_cons, Except.ok.injEq,
            ReadLoop.mk.injEq, and_true]
          refine ⟨by omega, ?_⟩
          simp

/-- The bytes that are left are put into the buffer; twice their number is returned. -/
theorem read_hexText (call : ReadCall) (bytes : List UInt8) :
    read call.buffer call.offset call.count (hexDigits bytes) =
      .ok ⟨2 * (bytes.take call.count).length,
        call.buffer.take call.offset ++ bytes.take call.count ++
          call.buffer.drop (call.offset + (bytes.take call.count).length),
        hexDigits (bytes.drop call.count)⟩ := by
  have hroom : 0 + call.offset + call.count ≤ call.buffer.length := by
    have := call.room
    omega
  have hloop := readLoop_hexDigits hroom bytes 0
  simpa [read] using hloop

/-! ## All calls -/

/-- The base stream behind all calls of `Write`. -/
def writeAll (written : List WriteCall) : Except NetException (List UInt8) :=
  written.foldlM (fun base call => write base call.buffer call.offset call.count) []

/-- What the calls of `Read` return, and leave in the buffers. -/
def readAll : List ReadCall → List Char → Except NetException (List ReadResult)
  | [], _ => .ok []
  | call :: calls, unread => do
      let l ← read call.buffer call.offset call.count unread
      let results ← readAll calls l.unread
      return ⟨call, l.buffer, l.completeRead⟩ :: results

/-- The text of what has been written are its digits. -/
theorem writeAll_text (written : List WriteCall) :
    ∃ base, writeAll written = .ok base ∧
      readerText base = hexDigits (written.flatMap WriteCall.bytes) := by
  have hfrom : ∀ (written : List WriteCall) (bytes : List UInt8),
      written.foldlM (fun base call => write base call.buffer call.offset call.count)
        (utf8GetBytes (String.ofList (hexDigits bytes))) =
      .ok (utf8GetBytes (String.ofList (hexDigits (bytes ++ written.flatMap WriteCall.bytes)))) := by
    intro written
    induction written with
    | nil =>
        intro bytes
        simp [pure, Except.pure]
    | cons call written ih =>
        intro bytes
        have hmore : utf8GetBytes (String.ofList (hexDigits bytes)) ++
            utf8GetBytes (String.ofList (hexDigits call.bytes)) =
            utf8GetBytes (String.ofList (hexDigits (bytes ++ call.bytes))) := by
          simp [utf8GetBytes_eq, hexDigits]
        rw [List.foldlM_cons, write, if_pos call.room, ok_bind]
        show List.foldlM _ (utf8GetBytes (String.ofList (hexDigits bytes)) ++
          utf8GetBytes (String.ofList (hexDigits call.bytes))) written = _
        rw [hmore, ih, List.flatMap_cons, List.append_assoc]
  have hempty : utf8GetBytes (String.ofList (hexDigits [])) = [] := by
    simp [utf8GetBytes_eq, hexDigits]
  have hall := hfrom written []
  rw [hempty] at hall
  refine ⟨_, hall, ?_⟩
  rw [readerText, utf8GetString_getBytes, String.toList_ofList, List.nil_append]

/-- The results of the calls, by the bytes in front of them. -/
def readResults : List ReadCall → List UInt8 → List ReadResult
  | [], _ => []
  | call :: calls, bytes =>
      ⟨call, call.buffer.take call.offset ++ bytes.take call.count ++
        call.buffer.drop (call.offset + (bytes.take call.count).length),
        2 * (bytes.take call.count).length⟩ :: readResults calls (bytes.drop call.count)

theorem readAll_hexDigits (calls : List ReadCall) (bytes : List UInt8) :
    readAll calls (hexDigits bytes) = .ok (readResults calls bytes) := by
  induction calls generalizing bytes with
  | nil => rfl
  | cons call calls ih =>
      rw [readAll, read_hexText, ok_bind, ih]
      simp [readResults, pure, Except.pure, bind, Except.bind]

/-- The bytes that a call has put into the buffer. -/
def stored (r : ReadResult) : List UInt8 := (r.buffer.drop r.call.offset).take (r.value.toNat / 2)

/-- They are those that have been written. -/
theorem readResults_stored (calls : List ReadCall) (bytes : List UInt8) :
    ∃ left, bytes = (readResults calls bytes).flatMap stored ++ left := by
  induction calls generalizing bytes with
  | nil => exact ⟨bytes, rfl⟩
  | cons call calls ih =>
      obtain ⟨left, hleft⟩ := ih (bytes.drop call.count)
      have hoffset : (call.buffer.take call.offset).length = call.offset := by
        have hroom := call.room
        rw [List.length_take]
        omega
      have hhalf : (2 * (bytes.take call.count).length : Int).toNat / 2 =
          (bytes.take call.count).length := by omega
      refine ⟨left, ?_⟩
      rw [readResults, List.flatMap_cons, stored]
      simp only
      rw [hhalf, List.append_assoc, List.append_assoc, List.drop_left' hoffset, List.take_left,
        ← hleft, List.take_append_drop]

theorem delivered_nothing (calls : List ReadCall) : Delivered [] (readResults calls []) [] := by
  induction calls with
  | nil => exact .nil []
  | cons call calls ih =>
      have hread : Delivers [] ⟨call, call.buffer.take call.offset ++ ([] : List UInt8) ++
          call.buffer.drop (call.offset + ([] : List UInt8).length), 0⟩ 0 :=
        ⟨rfl, Nat.zero_le _, Nat.le_refl _, rfl⟩
      rw [readResults]
      simp only [List.take_nil, List.drop_nil]
      exact .cons hread (fun _ => rfl) ih

/-- The calls deliver what has been written if and only if nothing has been written, or nothing is
read: with a byte at hand `Read` returns too much. -/
theorem hexFilterStream_faithful_iff (written : List WriteCall) (calls : List ReadCall) :
    (∃ base, writeAll written = .ok base ∧ ∃ results, readAll calls (readerText base) = .ok results ∧
        ∃ left, Delivered (written.flatMap WriteCall.bytes) results left) ↔
      written.flatMap WriteCall.bytes = [] ∨ calls = [] := by
  obtain ⟨base, hbase, htext⟩ := writeAll_text written
  have hresults := readAll_hexDigits calls (written.flatMap WriteCall.bytes)
  rw [← htext] at hresults
  constructor
  · rintro ⟨base', hbase', results, hresults', left, hdelivered⟩
    cases hbase.symm.trans hbase'
    cases hresults.symm.trans hresults'
    by_contra hneither
    rw [not_or] at hneither
    cases calls with
    | nil => exact hneither.2 rfl
    | cons call calls =>
        cases hdelivered with
        | cons hread _ _ =>
            -- what is returned is more than asked for, or more than there is
            have hpositive := call.positive
            have hlength := List.length_pos_iff.mpr hneither.1
            have hn := hread.value
            have hcount := hread.count
            have havailable := hread.available
            simp only [List.length_take] at hn hcount
            omega
  · rintro (hempty | rfl)
    · rw [hempty] at hresults ⊢
      exact ⟨base, hbase, _, hresults, [], delivered_nothing calls⟩
    · exact ⟨base, hbase, [], rfl, _, .nil _⟩

def letterA : WriteCall := ⟨[65], 0, 1, Nat.zero_lt_one⟩

def askForOne : ReadCall := ⟨[0], 0, 1, Nat.zero_lt_one, Nat.zero_lt_one⟩

/-- A byte is written, and one byte is asked for. -/
theorem one_byte_returns_two :
    ¬∃ base, writeAll [letterA] = .ok base ∧
      ∃ results, readAll [askForOne] (readerText base) = .ok results ∧
        ∃ left, Delivered letterA.bytes results left := by
  rintro ⟨base, hbase, results, hresults, left, hdelivered⟩
  obtain ⟨base', hbase', htext⟩ := writeAll_text [letterA]
  cases hbase.symm.trans hbase'
  rw [htext, readAll_hexDigits] at hresults
  cases hresults
  cases hdelivered with
  | cons hread _ _ =>
      have hvalue : (2 : Int) = _ := hread.value
      have hcount : _ ≤ 1 := hread.count
      omega

end HexFilterStream

/-! ## `FixedByteGenerator` -/

/-- `FixedByteGenerator.GenerateData`; the number that `Read` returns is not used. -/
def FixedByteGenerator.generateData (data : List Char) : Except NetException (List UInt8) := do
  let length := (utf8GetBytes (String.ofList data)).length / 2
  let l ← HexFilterStream.read (List.replicate length 0) 0 length data
  return l.buffer

theorem utf8GetBytes_hexDigits_length (bytes : List UInt8) :
    (utf8GetBytes (String.ofList (hexDigits bytes))).length = 2 * bytes.length := by
  have hsize : ∀ d < 16, (upperDigit d).utf8Size = 1 := by
    intro d hd
    interval_cases d <;> rfl
  rw [utf8GetBytes_eq, String.toList_ofList]
  induction bytes with
  | nil => rfl
  | cons b bytes ih =>
      have hb : b.toNat < 256 := b.toNat_lt
      have hhigh := hsize (b.toNat / 16) (by omega)
      have hlow := hsize (b.toNat % 16) (by omega)
      have hdigits : hexDigits (b :: bytes) =
          upperDigit (b.toNat / 16) :: upperDigit (b.toNat % 16) :: hexDigits bytes := rfl
      rw [hdigits, List.flatMap_cons, List.flatMap_cons, List.length_append, List.length_append, ih,
        String.length_utf8EncodeChar, String.length_utf8EncodeChar, hhigh, hlow, List.length_cons]
      omega

/-- The generated data are the bytes whose digits are configured. -/
theorem generateData_hexDigits (bytes : List UInt8) :
    FixedByteGenerator.generateData (hexDigits bytes) = .ok bytes := by
  have hlength : 2 * bytes.length / 2 = bytes.length := by omega
  have hroom : 0 + 0 + bytes.length ≤ (List.replicate bytes.length (0 : UInt8)).length := by
    simp
  have hread := HexFilterStream.readLoop_hexDigits hroom bytes 0
  rw [FixedByteGenerator.generateData, utf8GetBytes_hexDigits_length]
  simp only [hlength, HexFilterStream.read, hread, ok_bind]
  simp [pure, Except.pure]

end InMemoryFuzzing.Utils

import InMemoryFuzzing.RemoteControl.Framing

/-!
# The client's receiver

`RemoteControlProtocol.CBRead`, `ProcessBuffer` and `FindFirstOccurance`. The
packet handlers are a parameter: a handler acts on a world `σ` and may raise.
Nothing above the callback catches an exception, so one that escapes a handler
(or `new byte[dataLength]` on a negative length) ends the process; what is left
then is the `Crash`.
-/

namespace InMemoryFuzzing.RemoteControl

open Base Platform DotNet

/-- A `HandlerCallbackDelegate`: the world it leaves, and what it raises. -/
abbrev Handler (σ : Type*) := σ → String → List UInt8 → σ × Option NetException

/-- The `_handlers` dictionary. -/
abbrev Handlers (σ : Type*) := String → Option (Handler σ)

/-- `RegisterHandler`: the last registration for a receiver counts. -/
def registerHandler {σ : Type*} (handlers : Handlers σ) (receiver : String)
    (handlerCallback : Handler σ) : Handlers σ :=
  fun r => if r = receiver then some handlerCallback else handlers r

/-- What the packets dispatched so far have done. -/
structure Session (σ : Type*) where
  /-- Every packet that reached the handler lookup, in order. -/
  dispatched : List (String × List UInt8)
  /-- Lines written to the console. -/
  console : List String
  world : σ

/-- A session that an exception has ended. -/
structure Crash (σ : Type*) where
  session : Session σ
  raised : NetException

/-- The receiver between two reads. -/
structure ClientState (σ : Type*) where
  buffer : List UInt8
  session : Session σ

variable {σ : Type*}

/-- The scan of `FindFirstOccurance` over the buffer. -/
def findFirstOccurance (buffer : List UInt8) (startIndex : Nat) (data : List UInt8) :
    Option Nat :=
  (List.range' startIndex (buffer.length - data.length - startIndex)).find? fun i =>
    buffer[i]? == data[0]? &&
      (List.range' 1 (data.length - 1)).all fun c => buffer[i + c]? == data[c]?

/-- Look the receiver up and run its handler. -/
def dispatch (handlers : Handlers σ) (s : Session σ) (receiver : String) (data : List UInt8) :
    Except (Crash σ) (Session σ) :=
  let s := { s with dispatched := s.dispatched ++ [(receiver, data)] }
  match handlers receiver with
  | some handler =>
      match handler s.world receiver data with
      | (world, none) => .ok { s with world }
      | (world, some raised) => .error ⟨{ s with world }, raised⟩
  | none =>
      let line := "Cannot find handler for packet with '" ++ receiver ++ "'"
      .ok { s with console := s.console ++ [line] }

/-- `ProcessBuffer`: take complete packets off the buffer. -/
def processBuffer (handlers : Handlers σ) (st : ClientState σ) :
    Except (Crash σ) (ClientState σ) :=
  if _h : 0 < st.buffer.length then
    match findFirstOccurance st.buffer 0 (asciiGetBytes "FUZZ") with
    | none => .ok st
    | some realStart =>
        let rawData := st.buffer.drop realStart
        if rawData.length < 10 then .ok { st with buffer := rawData }
        else
          match toInt16 rawData 8 with
          | .error raised => .error ⟨st.session, raised⟩
          | .ok dataLength =>
              if (rawData.length : Int) < 10 + dataLength then .ok { st with buffer := rawData }
              -- `new byte[dataLength]`
              else if dataLength < 0 then .error ⟨st.session, .overflow⟩
              else
                let receiver := asciiGetString ((rawData.drop 4).take 4)
                let data := (rawData.drop 10).take dataLength.toNat
                match dispatch handlers st.session receiver data with
                | .error crash => .error crash
                | .ok session =>
                    processBuffer handlers ⟨rawData.drop (10 + dataLength.toNat), session⟩
  else .ok st
termination_by st.buffer.length
decreasing_by
  simp only [List.length_drop]
  omega

/-- `CBRead` with the bytes `EndRead` returned, and whether it reads again. -/
def cbRead (handlers : Handlers σ) (st : ClientState σ) (chunk : List UInt8) :
    Except (Crash σ) (ClientState σ × Bool) := do
  let st ← processBuffer handlers { st with buffer := st.buffer ++ chunk }
  return (st, decide (0 < chunk.length))

/-- The callbacks for the chunks that arrive, as long as each one reads again. -/
def receive (handlers : Handlers σ) (st : ClientState σ) :
    List (List UInt8) → Except (Crash σ) (ClientState σ)
  | [] => .ok st
  | chunk :: rest => do
      let (st, again) ← cbRead handlers st chunk
      if again then receive handlers st rest else .ok st

/-! ## The client refines the abstract receiver -/

/-- The abstract receiver behind the client: a magic word is noticed only with
one more byte behind it. -/
def clientFraming : Consumer UInt8 Packet := framing 5 (by decide)

/-- The magic word at `i`, read byte by byte. -/
private theorem magic_prefix_iff (buffer : List UInt8) (i : Nat) :
    magic <+: buffer.drop i ↔ buffer[i]? = some 0x46 ∧ buffer[i + 1]? = some 0x55 ∧
      buffer[i + 2]? = some 0x5A ∧ buffer[i + 3]? = some 0x5A := by
  have hget : ∀ k, buffer[i + k]? = (buffer.drop i)[k]? := fun k => List.getElem?_drop.symm
  rw [show buffer[i]? = (buffer.drop i)[0]? from hget 0, hget 1, hget 2, hget 3]
  generalize buffer.drop i = text
  constructor
  · rintro ⟨rest, rfl⟩
    exact ⟨rfl, rfl, rfl, rfl⟩
  · rintro ⟨h0, h1, h2, h3⟩
    match text with
    | [] => cases h0
    | [_] => cases h1
    | [_, _] => cases h2
    | [_, _, _] => cases h3
    | a :: b :: c :: d :: rest =>
        simp only [List.getElem?_cons_zero, List.getElem?_cons_succ, Option.some.injEq] at *
        subst h0 h1 h2 h3
        exact ⟨rest, rfl⟩

/-- The scan stops one position before the last possible one. -/
theorem findFirstOccurance_eq (buffer : List UInt8) :
    findFirstOccurance buffer 0 (asciiGetBytes "FUZZ") = locate magic 5 buffer := by
  have hword : asciiGetBytes "FUZZ" = magic := by decide
  have hrange : buffer.length + 1 - 5 = buffer.length - magic.length - 0 := by
    rw [magic_length]; omega
  rw [hword, findFirstOccurance, locate, hrange, List.range_eq_range']
  congr 1
  funext i
  rw [Bool.eq_iff_iff, List.isPrefixOf_iff_prefix, magic_prefix_iff]
  simp [magic, List.range']

/-- A packet as the handlers see it. -/
def Packet.decoded (p : Packet) : String × List UInt8 := (asciiGetString p.receiver, p.data)

/-- Dispatch packets one after the other. -/
def dispatchAll (handlers : Handlers σ) (s : Session σ) (packets : List Packet) :
    Except (Crash σ) (Session σ) :=
  packets.foldlM (fun s p => dispatch handlers s p.decoded.1 p.decoded.2) s

/-- What the client does with a drained buffer: dispatch the packets, then keep
the remainder or raise at the negative length. -/
def finish (handlers : Handlers σ) (s : Session σ) (d : Drained UInt8 Packet) :
    Except (Crash σ) (ClientState σ) := do
  let s' ← dispatchAll handlers s d.items
  match d.kept with
  | some kept => .ok ⟨kept, s'⟩
  | none => .error ⟨s', .overflow⟩

theorem finish_push (handlers : Handlers σ) (s : Session σ) (p : Packet)
    (d : Drained UInt8 Packet) :
    finish handlers s (d.push [p]) =
      (dispatch handlers s p.decoded.1 p.decoded.2).bind fun s' => finish handlers s' d := by
  simp only [finish, dispatchAll, Drained.push_items, Drained.push_kept, List.singleton_append,
    List.foldlM_cons]
  cases dispatch handlers s p.decoded.1 p.decoded.2 with
  | error crash => rfl
  | ok s' => rfl

/-- `ToInt16` at offset 8 is the length field. -/
theorem toInt16_eq_lengthField {rawData : List UInt8} (h : headerSize ≤ rawData.length) :
    toInt16 rawData 8 = .ok (lengthField rawData) := by
  have hten : 10 ≤ rawData.length := h
  rw [toInt16, if_pos (by omega)]
  rfl

/-- `ProcessBuffer` drains the buffer. -/
theorem processBuffer_eq (handlers : Handlers σ) (buffer : List UInt8) (s : Session σ) :
    processBuffer handlers ⟨buffer, s⟩ = finish handlers s (clientFraming.drain buffer) := by
  induction buffer using clientFraming.drain_induction generalizing s with
  | item buffer p rest hs ih =>
      rw [Consumer.drain_item hs, finish_push]
      obtain ⟨i, hl, hstep⟩ := frameStep_item hs
      obtain ⟨n, hn, hlen, rfl, rfl⟩ := headStep_item.mp hstep
      have hpos : 0 < buffer.length := by
        rw [List.length_drop, headerSize] at hlen
        omega
      have hten : headerSize = 10 := rfl
      rw [processBuffer, dif_pos hpos]
      simp only [findFirstOccurance_eq, hl]
      rw [if_neg (by omega), toInt16_eq_lengthField (by omega), hn]
      simp only
      rw [if_neg (by omega), if_neg (by omega), Int.toNat_natCast]
      show _ = (dispatch handlers s (asciiGetString (((buffer.drop i).drop 4).take 4))
        (((buffer.drop i).drop 10).take n)).bind _
      cases dispatch handlers s (asciiGetString (((buffer.drop i).drop 4).take 4))
        (((buffer.drop i).drop 10).take n) with
      | error crash => rfl
      | ok s' => exact ih s'
  | wait buffer kept hs =>
      rw [Consumer.drain_wait hs, processBuffer]
      show _ = Except.ok (⟨kept, s⟩ : ClientState σ)
      by_cases hpos : 0 < buffer.length
      · rw [dif_pos hpos]
        simp only [findFirstOccurance_eq]
        cases hl : locate magic 5 buffer with
        | none =>
            have hwait : (Outcome.wait buffer : Outcome UInt8 Packet) = .wait kept :=
              (frameStep_of_none hl).symm.trans hs
            cases hwait
            rfl
        | some i =>
            obtain ⟨rfl, hshort | ⟨hfield, hshort⟩⟩ :=
              headStep_wait.mp ((frameStep_of_some hl).symm.trans hs)
            · exact if_pos hshort
            · simp only
              split
              · rfl
              · rw [toInt16_eq_lengthField (by rw [headerSize]; omega)]
                exact if_pos hshort
      · have hempty : buffer = [] := List.length_eq_zero_iff.mp (by omega)
        subst hempty
        have hwait : clientFraming.step [] = .wait [] := rfl
        rw [hwait] at hs
        cases hs
        rfl
  | fail buffer hs =>
      rw [Consumer.drain_fail hs, processBuffer]
      obtain ⟨i, hl, hstep⟩ := frameStep_fail hs
      obtain ⟨hlen, hneg⟩ := headStep_fail.mp hstep
      have hten : headerSize = 10 := rfl
      have hpos : 0 < buffer.length := by
        rw [List.length_drop] at hlen
        omega
      rw [dif_pos hpos]
      simp only [findFirstOccurance_eq, hl]
      rw [if_neg (by omega), toInt16_eq_lengthField hlen]
      simp only
      rw [if_neg (by omega), if_pos hneg]
      rfl

/-- Finishing a resumed drain is finishing its front, then the rest. -/
theorem finish_resume (handlers : Handlers σ) (s : Session σ) (d : Drained UInt8 Packet)
    (more : List UInt8) :
    finish handlers s (clientFraming.resume d more) = (finish handlers s d).bind fun st =>
      finish handlers st.session (clientFraming.drain (st.buffer ++ more)) := by
  obtain ⟨items, kept⟩ := d
  induction items generalizing s with
  | nil =>
      cases kept with
      | none => rfl
      | some kept => rfl
  | cons p items ih =>
      have hpush : (⟨p :: items, kept⟩ : Drained UInt8 Packet) =
        Drained.push [p] ⟨items, kept⟩ := rfl
      rw [hpush, Consumer.resume_push, finish_push, finish_push]
      cases dispatch handlers s p.decoded.1 p.decoded.2 with
      | error crash => rfl
      | ok s' => exact ih s'

/-- The callbacks together drain the whole stream. -/
theorem receive_eq (handlers : Handlers σ) (chunks : List (List UInt8))
    (hne : ∀ chunk ∈ chunks, chunk ≠ []) (buffer : List UInt8) (s : Session σ)
    (hwait : clientFraming.step buffer = .wait buffer) :
    receive handlers ⟨buffer, s⟩ chunks =
      finish handlers s (clientFraming.drain (buffer ++ chunks.flatten)) := by
  induction chunks generalizing buffer s with
  | nil =>
      rw [List.flatten_nil, List.append_nil, Consumer.drain_wait hwait]
      rfl
  | cons chunk rest ih =>
      have hpos : 0 < chunk.length := List.length_pos_iff.mpr (hne chunk List.mem_cons_self)
      rw [List.flatten_cons, ← List.append_assoc, Consumer.drain_append, finish_resume,
        receive, cbRead, processBuffer_eq]
      -- the state after this callback waits again, so the induction hypothesis applies
      cases hfin : finish handlers s (clientFraming.drain (buffer ++ chunk)) with
      | error crash => rfl
      | ok st =>
          have hkept : (clientFraming.drain (buffer ++ chunk)).kept = some st.buffer := by
            revert hfin
            simp only [finish]
            cases dispatchAll handlers s (clientFraming.drain (buffer ++ chunk)).items with
            | error crash => intro h; cases h
            | ok s' =>
                cases (clientFraming.drain (buffer ++ chunk)).kept with
                | none => intro h; cases h
                | some kept => intro h; cases h; rfl
          show (if decide (0 < chunk.length) = true then receive handlers st rest else .ok st) = _
          rw [if_pos (decide_eq_true hpos)]
          exact ih (fun c hc => hne c (List.mem_cons_of_mem _ hc)) st.buffer st.session
            (Consumer.step_kept hkept)

end InMemoryFuzzing.RemoteControl

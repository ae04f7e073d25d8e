import InMemoryFuzzing.RemoteControl.ExecLogic
import InMemoryFuzzing.RemoteControl.ProcHandler

/-!
# What the PROC handler writes

An entry of the process table is two strings, `cmd=` and `pid=`. As long as the
entries fit into the buffer, the handler appends one after the other; behind
that its offset and its buffer go different ways. What stays true of every run
that returns is that the counter counts the processes with a command line.
-/

namespace InMemoryFuzzing.RemoteControl

open Base Platform
open Traced (emit undefined returns_pure returns_emit)

/-! ## Entries -/

/-- A process that is sent: its command and its id. -/
structure ProcEntry where
  cmd : List UInt8
  pid : Int

/-- `cmd=` and the command. -/
def cmdText (cmd : List UInt8) : List UInt8 := CLib.textBytes "cmd=".toList ++ cmd

/-- `<2 int16><length int16><cmd=...><length int16><pid=...>`. -/
def ProcEntry.bytes (e : ProcEntry) : List UInt8 :=
  toLE 2 2 ++ (encodeString (cmdText e.cmd) ++ encodeString (pidText e.pid))

/-- The processes that are sent: those with a command line. -/
def procEntries (table : List Proc) : List ProcEntry :=
  table.filterMap fun p => p.cmdline.map fun cmd => ⟨cmd, p.tid⟩

/-- The bytes of a list of entries. -/
def entriesBytes (entries : List ProcEntry) : List UInt8 := (entries.map ProcEntry.bytes).flatten

@[simp] theorem cmdText_length (cmd : List UInt8) : (cmdText cmd).length = 4 + cmd.length := by
  simp [cmdText]

theorem ProcEntry.bytes_length (e : ProcEntry) :
    e.bytes.length = 2 + (2 + (4 + e.cmd.length) + (2 + (pidText e.pid).length)) := by
  simp [ProcEntry.bytes]

@[simp] theorem entriesBytes_nil : entriesBytes [] = [] := rfl

@[simp] theorem entriesBytes_cons (e : ProcEntry) (rest : List ProcEntry) :
    entriesBytes (e :: rest) = e.bytes ++ entriesBytes rest := rfl

/-- How many of the entries stand completely at the start of `bytes`, one behind
the other. -/
def presentEntries : List ProcEntry → List UInt8 → Nat
  | [], _ => 0
  | e :: rest, bytes =>
      if e.bytes <+: bytes then 1 + presentEntries rest (bytes.drop e.bytes.length) else 0

theorem presentEntries_all (entries : List ProcEntry) (rest : List UInt8) :
    presentEntries entries (entriesBytes entries ++ rest) = entries.length := by
  induction entries with
  | nil => rfl
  | cons e entries ih =>
      rw [entriesBytes_cons, List.append_assoc, presentEntries, if_pos (List.prefix_append _ _),
        List.drop_left, ih, List.length_cons, Nat.add_comm]

/-- If all entries are present, there is room for them. -/
theorem entriesBytes_length_le {entries : List ProcEntry} {bytes : List UInt8}
    (h : presentEntries entries bytes = entries.length) :
    (entriesBytes entries).length ≤ bytes.length := by
  induction entries generalizing bytes with
  | nil => exact Nat.zero_le _
  | cons e entries ih =>
      rw [presentEntries, List.length_cons] at h
      split at h
      · rename_i hpresent
        have hrest := ih (by omega : presentEntries entries (bytes.drop e.bytes.length) = _)
        have hlen := hpresent.length_le
        rw [List.length_drop] at hrest
        rw [entriesBytes_cons, List.length_append]
        omega
      · omega

/-! ## One process that fits -/

/-- The handler has written exactly these entries. -/
structure Written (st : ProcState) (done : List ProcEntry) : Prop where
  holds : st.outputBuffer.Holds 4 (entriesBytes done)
  offset_eq : st.currentBufferOffset = 4 + (entriesBytes done).length
  counter_eq : st.procCounter = done.length

/-- The computation writes below 9000 only and returns `a`. -/
def WritesReturn {α : Type} (x : Traced ProcEvent α) (a : α) : Prop :=
  ∃ writes : List Nat, (∀ i ∈ writes, i < 9000) ∧ x.Returns (writes.map .write) a

theorem WritesReturn.bind {α β : Type} {x : Traced ProcEvent α} {f : α → Traced ProcEvent β}
    {a : α} {b : β} (hx : WritesReturn x a) (hf : WritesReturn (f a) b) :
    WritesReturn (x >>= f) b := by
  obtain ⟨front, hfront, hx⟩ := hx
  obtain ⟨back, hback, hf⟩ := hf
  refine ⟨front ++ back, ?_, ?_⟩
  · intro i hi
    exact (List.mem_append.mp hi).elim (hfront i) (hback i)
  · rw [List.map_append]
    exact hx.bind hf

theorem writesReturn_pure {α : Type} (a : α) : WritesReturn (pure a : Traced ProcEvent α) a :=
  ⟨[], by simp, returns_pure a⟩

theorem storeAt_returns (buffer : Memory UInt8) (offset : Nat) (bytes : List UInt8)
    (hfit : offset + bytes.length ≤ 9000) :
    WritesReturn (storeAt buffer offset bytes) (buffer.store offset bytes) := by
  refine WritesReturn.bind ⟨_, ?_, returns_emit _⟩ (writesReturn_pure _)
  intro i hi
  have := List.mem_range'_1.mp hi
  omega

theorem advance_returns {offset : Nat} {amount : Int} {n : Nat} (h : offset + amount = n)
    (hn : n < 2 ^ 31) : WritesReturn (advance offset amount) n := by
  rw [advance, if_pos (by omega), h, Int.toNat_natCast]
  exact writesReturn_pure n

theorem writeStringAt_returns (buffer : Memory UInt8) {offset : Nat} (text rest : List UInt8)
    (hfit : offset + (encodeString text).length ≤ 9000) :
    WritesReturn (writeStringAt buffer offset (text ++ rest) text.length)
      ⟨text.length, buffer.store offset (encodeString text)⟩ := by
  rw [encodeString_length] at hfit
  have hmax : ((9000 : Int) - offset) = (9000 - offset : Nat) := by omega
  have hbytes : toLE 2 text.length ++ (text ++ rest).take text.length = encodeString text := by
    rw [List.take_left, encodeString]
  rw [writeStringAt, hmax, writeString_natCast (by omega), hbytes]
  refine (storeAt_returns buffer _ _ ?_).bind (writesReturn_pure _)
  rw [encodeString_length]
  omega

theorem int32_natCast {n : Nat} (h : n < 2 ^ 31) : CLib.int32 n = n := by
  rw [CLib.int32, Int.bmod_def]
  omega

theorem strlen_of_nonzero {s : List UInt8} (h : ∀ b ∈ s, b ≠ 0) : CLib.strlen s = s.length := by
  rw [CLib.strlen, List.takeWhile_eq_self_iff.mpr (by simpa using h)]

theorem cmdBuffer_returns {cmdline : List UInt8} (h : cmdline.length ≤ 9000) :
    WritesReturn (cmdBuffer cmdline cmdline.length) (cmdText cmdline ++ [0]) := by
  have htake : (CLib.textBytes "cmd=".toList ++ cmdline).take (4 + (cmdline.length : Int)).toNat =
      cmdText cmdline := by
    have hlen := cmdText_length cmdline
    rw [show (4 + (cmdline.length : Int)).toNat = (cmdText cmdline).length by omega]
    exact List.take_length
  rw [cmdBuffer, if_neg (by omega), htake]
  exact writesReturn_pure _

/-- A process whose entry still fits is appended. -/
theorem handlerProcStep_returns {buffer : Memory UInt8} {offset counter : Nat}
    {done : List ProcEntry} (hst : Written ⟨buffer, offset, counter⟩ done)
    {p : Proc} {cmd : List UInt8} (hcmd : p.cmdline = some cmd)
    (hfit : offset + (⟨cmd, p.tid⟩ : ProcEntry).bytes.length ≤ 9000) (hcount : counter ≤ 9000) :
    ∃ buffer', WritesReturn (handlerProcStep ⟨buffer, offset, counter⟩ p)
        ⟨buffer', offset + (⟨cmd, p.tid⟩ : ProcEntry).bytes.length, counter + 1⟩ ∧
      buffer'.Holds 4 (entriesBytes done ++ (⟨cmd, p.tid⟩ : ProcEntry).bytes) := by
  obtain ⟨hholds, hoff, -⟩ := hst
  dsimp only at hholds hoff
  have hlen := ProcEntry.bytes_length ⟨cmd, p.tid⟩
  dsimp only at hlen
  rw [hlen] at hfit ⊢
  have hcmdLen : CLib.int32 (CLib.strlen cmd) = cmd.length := by
    rw [strlen_of_nonzero (p.cmdline_ne_zero cmd (by simp [hcmd])), int32_natCast (by omega)]
  have hcmdArg : CLib.int16 (4 + (cmd.length : Int)) = (cmdText cmd).length := by
    rw [show 4 + (cmd.length : Int) = ((cmdText cmd).length : Nat) by rw [cmdText_length]; omega,
      int16_natCast (by rw [cmdText_length]; omega)]
  have hpidArg : CLib.int16 (pidText p.tid).length = (pidText p.tid).length :=
    int16_natCast (by omega)
  refine ⟨((buffer.store offset (CLib.writeInt16T 2)).store (offset + 2)
    (encodeString (cmdText cmd))).store (offset + 2 + (2 + (4 + cmd.length)))
      (encodeString (pidText p.tid)), ?_, ?_⟩
  · rw [handlerProcStep, hcmd]
    dsimp only
    refine (storeAt_returns _ _ _ (by rw [CLib.writeInt16T_length]; omega)).bind ?_
    refine (advance_returns (n := offset + 2) (by omega) (by omega)).bind ?_
    rw [hcmdLen]
    refine (cmdBuffer_returns (by omega)).bind ?_
    rw [hcmdArg]
    refine (writeStringAt_returns _ _ _ (by rw [encodeString_length, cmdText_length]; omega)).bind ?_
    refine (advance_returns (n := offset + 2 + (2 + (4 + cmd.length))) (by omega)
      (by omega)).bind ?_
    rw [hpidArg]
    refine (writeStringAt_returns _ _ _ (by rw [encodeString_length]; omega)).bind ?_
    dsimp only
    refine (advance_returns
      (n := offset + (2 + (2 + (4 + cmd.length) + (2 + (pidText p.tid).length))))
      (by omega) (by omega)).bind ?_
    refine (advance_returns (n := counter + 1) (by omega) (by omega)).bind ?_
    exact writesReturn_pure _
  · -- three stores, each right behind the last
    have hcmdPos : 4 + (entriesBytes done ++ CLib.writeInt16T 2).length = offset + 2 := by
      rw [List.length_append, CLib.writeInt16T_length]
      omega
    have hpidPos : 4 + (entriesBytes done ++ CLib.writeInt16T 2 ++ encodeString (cmdText cmd)).length =
        offset + 2 + (2 + (4 + cmd.length)) := by
      rw [List.length_append, encodeString_length, cmdText_length]
      omega
    have h₁ := Memory.holds_store_append hholds (CLib.writeInt16T 2)
    have h₂ := Memory.holds_store_append h₁ (encodeString (cmdText cmd))
    have h₃ := Memory.holds_store_append h₂ (encodeString (pidText p.tid))
    rw [hpidPos, hcmdPos, ← hoff] at h₃
    rw [ProcEntry.bytes, show toLE 2 2 = CLib.writeInt16T 2 from (CLib.writeInt16T_natCast 2).symm]
    simpa only [List.append_assoc] using h₃

/-! ## The loop -/

theorem procEntries_cons_none {p : Proc} (h : p.cmdline = none) (rest : List Proc) :
    procEntries (p :: rest) = procEntries rest := by
  simp [procEntries, h]

theorem procEntries_cons_some {p : Proc} {cmd : List UInt8} (h : p.cmdline = some cmd)
    (rest : List Proc) : procEntries (p :: rest) = ⟨cmd, p.tid⟩ :: procEntries rest := by
  simp [procEntries, h]

theorem length_le_entriesBytes (entries : List ProcEntry) :
    entries.length ≤ (entriesBytes entries).length := by
  induction entries with
  | nil => exact Nat.le_refl 0
  | cons e rest ih =>
      have := e.bytes_length
      rw [entriesBytes_cons, List.length_append, List.length_cons]
      omega

/-- A table that fits is written entry by entry. -/
theorem handlerProcLoop_returns {st : ProcState} {done : List ProcEntry} (hst : Written st done)
    {table : List Proc}
    (hfit : 4 + (entriesBytes done ++ entriesBytes (procEntries table)).length ≤ 9000) :
    ∃ st', WritesReturn (handlerProcLoop st table) st' ∧
      Written st' (done ++ procEntries table) := by
  induction table generalizing st done with
  | nil =>
      refine ⟨st, writesReturn_pure st, ?_⟩
      simpa [procEntries] using hst
  | cons p rest ih =>
      cases hcmd : p.cmdline with
      | none =>
          rw [procEntries_cons_none hcmd] at hfit ⊢
          obtain ⟨st', hrun, hst'⟩ := ih hst hfit
          have hstep : handlerProcStep st p = pure st := by rw [handlerProcStep, hcmd]
          refine ⟨st', ?_, hst'⟩
          rw [handlerProcLoop, hstep]
          exact (writesReturn_pure st).bind hrun
      | some cmd =>
          obtain ⟨buffer, offset, counter⟩ := st
          rw [procEntries_cons_some hcmd] at hfit ⊢
          rw [entriesBytes_cons, List.length_append, List.length_append] at hfit
          have hoff : offset = 4 + (entriesBytes done).length := hst.offset_eq
          have hcounter : counter = done.length := hst.counter_eq
          have hdone := length_le_entriesBytes done
          obtain ⟨buffer', hstep, hholds⟩ :=
            handlerProcStep_returns hst hcmd (by omega) (by omega)
          have hbytes : entriesBytes (done ++ [⟨cmd, p.tid⟩]) =
              entriesBytes done ++ (⟨cmd, p.tid⟩ : ProcEntry).bytes := by
            simp [entriesBytes]
          have hnext : Written ⟨buffer', offset + (⟨cmd, p.tid⟩ : ProcEntry).bytes.length, counter + 1⟩
              (done ++ [⟨cmd, p.tid⟩]) := by
            refine ⟨?_, ?_, ?_⟩
            · rw [hbytes]
              exact hholds
            · rw [hbytes, List.length_append]
              show offset + _ = _
              omega
            · show counter + 1 = _
              rw [List.length_append, hcounter]
              rfl
          obtain ⟨st', hrun, hst'⟩ := ih hnext
            (by rw [hbytes, List.length_append, List.length_append]; omega)
          refine ⟨st', hstep.bind hrun, ?_⟩
          rwa [List.append_assoc, List.singleton_append] at hst'

theorem advance_of_returns {offset n : Nat} {amount : Int} {events : List ProcEvent}
    (h : (advance offset amount).Returns events n) :
    n = (offset + amount).toNat ∧ offset + amount < 2 ^ 31 := by
  rw [advance] at h
  split at h
  · rename_i hlt
    obtain ⟨rfl, -⟩ := h.of_pure
    exact ⟨rfl, hlt⟩
  · exact absurd h Traced.not_returns_undefined

theorem writeString_result {maxLength length result : Int} {text bytes : List UInt8}
    (h : CLib.writeString maxLength text length = some (result, bytes)) : -1 ≤ result := by
  simp only [CLib.writeString] at h
  generalize (if length < 0 then CLib.int16 (CLib.strlen text) else length) = n at h
  split at h
  · cases h
    exact Int.le_refl _
  · split at h
    · cases h
    · rename_i hpos
      cases h
      omega

theorem writeStringAt_result {buffer : Memory UInt8} {offset : Nat} {text : List UInt8}
    {length : Int} {events : List ProcEvent} {w : StringWritten}
    (h : (writeStringAt buffer offset text length).Returns events w) : -1 ≤ w.result := by
  rw [writeStringAt] at h
  split at h
  · exact absurd h Traced.not_returns_undefined
  · rename_i result bytes hwrite
    obtain ⟨_, _, _, -, h, -⟩ := h.of_bind
    obtain ⟨rfl, -⟩ := h.of_pure
    exact writeString_result hwrite

theorem cmdBuffer_of_returns {cmdline text : List UInt8} {cmdLen : Int} {events : List ProcEvent}
    (h : (cmdBuffer cmdline cmdLen).Returns events text) : -4 ≤ cmdLen := by
  rw [cmdBuffer] at h
  split at h
  · exact absurd h Traced.not_returns_undefined
  · omega

/-- One process moves the offset forward and is counted. -/
theorem handlerProcStep_of_returns {st st' : ProcState} {p : Proc} {cmd : List UInt8}
    (hcmd : p.cmdline = some cmd) {events : List ProcEvent}
    (h : (handlerProcStep st p).Returns events st') :
    st'.procCounter = st.procCounter + 1 ∧ st'.procCounter < 2 ^ 31 ∧
      st.currentBufferOffset ≤ st'.currentBufferOffset := by
  rw [handlerProcStep, hcmd] at h
  obtain ⟨_, _, _, -, h, -⟩ := h.of_bind
  obtain ⟨_, offset₁, _, hadv₁, h, -⟩ := h.of_bind
  obtain ⟨_, text, _, htext, h, -⟩ := h.of_bind
  obtain ⟨_, _, _, -, h, -⟩ := h.of_bind
  obtain ⟨_, offset₂, _, hadv₂, h, -⟩ := h.of_bind
  obtain ⟨_, pid, _, hpid, h, -⟩ := h.of_bind
  obtain ⟨_, offset₃, _, hadv₃, h, -⟩ := h.of_bind
  obtain ⟨_, counter, _, hcounter, h, -⟩ := h.of_bind
  obtain ⟨rfl, -⟩ := h.of_pure
  have hcmdLen := cmdBuffer_of_returns htext
  have hresult := writeStringAt_result hpid
  obtain ⟨h₁, -⟩ := advance_of_returns hadv₁
  obtain ⟨h₂, -⟩ := advance_of_returns hadv₂
  obtain ⟨h₃, -⟩ := advance_of_returns hadv₃
  obtain ⟨hc, hlt⟩ := advance_of_returns hcounter
  refine ⟨?_, ?_, ?_⟩
  · show counter = _
    omega
  · show counter < _
    omega
  · show _ ≤ offset₃
    omega

/-- The counter of a run that returns counts the processes with a command line,
whatever was written of them. -/
theorem handlerProcLoop_of_returns {st st' : ProcState} {table : List Proc}
    {events : List ProcEvent} (h : (handlerProcLoop st table).Returns events st')
    (hst : 4 ≤ st.currentBufferOffset) (hcount : st.procCounter < 2 ^ 31) :
    st'.procCounter = st.procCounter + (procEntries table).length ∧ st'.procCounter < 2 ^ 31 ∧
      4 ≤ st'.currentBufferOffset := by
  induction table generalizing st events with
  | nil =>
      obtain ⟨rfl, -⟩ := h.of_pure
      exact ⟨rfl, hcount, hst⟩
  | cons p rest ih =>
      obtain ⟨_, next, _, hstep, h, -⟩ := h.of_bind
      cases hcmd : p.cmdline with
      | none =>
          rw [handlerProcStep, hcmd] at hstep
          obtain ⟨rfl, -⟩ := hstep.of_pure
          rw [procEntries_cons_none hcmd]
          exact ih h hst hcount
      | some cmd =>
          obtain ⟨hnext, hlt, hoffset⟩ := handlerProcStep_of_returns hcmd hstep
          obtain ⟨hcounter, hlt', hoffset'⟩ := ih h (by omega) hlt
          refine ⟨?_, hlt', hoffset'⟩
          rw [procEntries_cons_some hcmd, List.length_cons, hcounter, hnext]
          omega

end InMemoryFuzzing.RemoteControl

import InMemoryFuzzing.RemoteControl.ProcClient
import InMemoryFuzzing.RemoteControl.ProcLogic
import InMemoryFuzzing.RemoteControl.Theorems.Exec

/-!
# The responses REXS and RPRC

The server writes its responses with C formulas for the offsets, the client
takes them apart with its own. Both agree as long as the server stays inside its
buffer, and for the process table that is a question of its size:
`handlerProc_stays_iff`.
-/

namespace InMemoryFuzzing.RemoteControl

open Base Platform
open Traced (returns_emit)

/-! ## The status of a started program -/

/-- The client reads the fields back that the server has written. -/
theorem handlerExecStatus_encoded {name : String}
    (hname : ∀ c ∈ name.toList, 1 ≤ c.toNat ∧ c.toNat ≤ 127)
    (hlen : name.toList.length ≤ 32767) {pid status : Int} (hpid : -2 ^ 31 ≤ pid ∧ pid < 2 ^ 31)
    (hstatus : -2 ^ 31 ≤ status ∧ status < 2 ^ 31) :
    handlerExecStatus (encodeString (DotNet.asciiGetBytes name) ++
      (CLib.writeInt32T pid ++ CLib.writeInt32T status)) = .ok ⟨name, pid, status⟩ := by
  have hbytes : (DotNet.asciiGetBytes name).length = name.toList.length :=
    DotNet.asciiGetBytes_length name
  have htext : DotNet.asciiGetString (DotNet.asciiGetBytes name) = name := by
    apply DotNet.asciiGetString_getBytes
    intro c hc
    have := hname c hc
    omega
  generalize DotNet.asciiGetBytes name = bytes at hbytes htext ⊢
  generalize hdata : encodeString bytes ++ (CLib.writeInt32T pid ++ CLib.writeInt32T status) = data
  have hlength : data.drop 0 = toLE 2 bytes.length ++
      (bytes ++ (CLib.writeInt32T pid ++ CLib.writeInt32T status)) := by
    rw [← hdata, encodeString, List.append_assoc]
    rfl
  have hstring : data.drop 2 = bytes ++ (CLib.writeInt32T pid ++ CLib.writeInt32T status) := by
    rw [← hdata, encodeString, List.append_assoc]
    exact List.drop_left' (toLE_length 2 _)
  have hpidField : data.drop (2 + bytes.length) =
      CLib.writeInt32T pid ++ CLib.writeInt32T status := by
    rw [← hdata]
    exact List.drop_left' (encodeString_length bytes)
  have hstatusField : data.drop (2 + bytes.length + 4) = CLib.writeInt32T status ++ [] := by
    rw [← List.drop_drop, hpidField, List.append_nil]
    exact List.drop_left' rfl
  have hsize : 2 ≤ data.length := by
    rw [← hdata, List.length_append, encodeString_length]
    omega
  have hpidValue : Int.bmod (fromLE (CLib.writeInt32T pid)) (2 ^ 32) = pid :=
    CLib.int32_fromLE_writeInt32T hpid.1 hpid.2
  have hstatusValue : Int.bmod (fromLE (CLib.writeInt32T status)) (2 ^ 32) = status :=
    CLib.int32_fromLE_writeInt32T hstatus.1 hstatus.2
  rw [handlerExecStatus, DotNet.toInt16_of_drop hlength (by omega)]
  show (DotNet.asciiGetStringAt data 2 bytes.length >>= fun name => _) = _
  rw [DotNet.asciiGetStringAt_of_drop hstring hsize, htext]
  show (DotNet.toInt32 data (2 + bytes.length) >>= fun pid => _) = _
  rw [DotNet.toInt32_of_drop hpidField rfl, hpidValue]
  show (DotNet.toInt32 data (2 + bytes.length + 4) >>= fun status => _) = _
  rw [DotNet.toInt32_of_drop hstatusField rfl, hstatusValue]
  rfl

/-! ## The process table -/

theorem intTryParse_formatD {value : Int} (h : -2 ^ 31 ≤ value ∧ value < 2 ^ 31) :
    DotNet.intTryParse (CLib.formatD value) = some value := by
  have hparse : DotNet.parseInteger (CLib.formatD value) = some value := by
    rw [CLib.formatD]
    split
    · rw [DotNet.parseInteger_neg]
      congr 1
      omega
    · rw [DotNet.parseInteger_toDigits]
      congr 1
      omega
  rw [DotNet.intTryParse, hparse, Option.filter_some, if_pos (by simpa using h)]

theorem asciiGetBytes_eq_textBytes {s : String} (h : ∀ c ∈ s.toList, 1 ≤ c.toNat ∧ c.toNat ≤ 127) :
    DotNet.asciiGetBytes s = CLib.textBytes s.toList := by
  apply List.map_congr_left
  intro c hc
  have := h c hc
  exact if_pos (by omega)

theorem asciiGetString_textBytes {text : List Char} (h : ∀ c ∈ text, 1 ≤ c.toNat ∧ c.toNat ≤ 127) :
    DotNet.asciiGetString (CLib.textBytes text) = String.ofList text := by
  have htext : ∀ c ∈ (String.ofList text).toList, 1 ≤ c.toNat ∧ c.toNat ≤ 127 := by
    rwa [String.toList_ofList]
  rw [← String.toList_ofList (l := text), ← asciiGetBytes_eq_textBytes htext,
    DotNet.asciiGetString_getBytes fun c hc => Nat.lt_succ_of_le (htext c hc).2, String.toList_ofList]

theorem formatD_ascii (value : Int) : ∀ c ∈ CLib.formatD value, 1 ≤ c.toNat ∧ c.toNat ≤ 127 := by
  have hdigit : ∀ d < 10, 1 ≤ (Nat.digitChar d).toNat ∧ (Nat.digitChar d).toNat ≤ 127 := by decide
  have hdigits : ∀ c ∈ Nat.toDigits 10 value.natAbs, 1 ≤ c.toNat ∧ c.toNat ≤ 127 := by
    intro c hc
    obtain ⟨d, hd, rfl⟩ := mem_toDigits (by omega) hc
    exact hdigit d hd
  rw [CLib.formatD]
  split
  · exact List.forall_mem_cons.mpr ⟨by simp, hdigits⟩
  · exact hdigits

/-- A process with a command of NUL-free ASCII characters. -/
structure NamedProcess where
  command : String
  pid : Int
  command_ascii : ∀ c ∈ command.toList, 1 ≤ c.toNat ∧ c.toNat ≤ 127
  pid_int32 : -2 ^ 31 ≤ pid ∧ pid < 2 ^ 31

/-- The process as the server sees it. -/
def NamedProcess.proc (p : NamedProcess) : Proc where
  cmdline := some (DotNet.asciiGetBytes p.command)
  tid := p.pid
  cmdline_ne_zero := by
    rintro s ⟨⟩
    exact DotNet.asciiGetBytes_ne_zero p.command_ascii
  tid_int32 := p.pid_int32

/-- The entry that is sent for it. -/
def NamedProcess.entry (p : NamedProcess) : ProcEntry := ⟨DotNet.asciiGetBytes p.command, p.pid⟩

/-- What the client is to see of it. -/
def NamedProcess.info (p : NamedProcess) : RemoteProcessInfo := ⟨some p.command, p.pid⟩

theorem procEntries_named (ps : List NamedProcess) :
    procEntries (ps.map NamedProcess.proc) = ps.map NamedProcess.entry := by
  induction ps with
  | nil => rfl
  | cons p rest ih => rw [List.map_cons, procEntries_cons_some rfl, ih]; rfl

theorem setValue_cmd (p : NamedProcess) (info : RemoteProcessInfo) :
    info.setValue (DotNet.asciiGetString (cmdText p.entry.cmd)) =
      { info with command := some p.command } := by
  have htext : cmdText p.entry.cmd = CLib.textBytes ("cmd=".toList ++ p.command.toList) := by
    show CLib.textBytes "cmd=".toList ++ DotNet.asciiGetBytes p.command = _
    rw [asciiGetBytes_eq_textBytes p.command_ascii, CLib.textBytes, CLib.textBytes, CLib.textBytes,
      List.map_append]
  have hascii : ∀ c ∈ "cmd=".toList ++ p.command.toList, 1 ≤ c.toNat ∧ c.toNat ≤ 127 := by
    rw [List.forall_mem_append]
    exact ⟨by simp, p.command_ascii⟩
  have hcut : cutAt '=' ("cmd=".toList ++ p.command.toList) =
      some ("cmd".toList, p.command.toList) := by
    show cutAt '=' ("cmd".toList ++ '=' :: p.command.toList) = _
    exact cutAt_append (by simp) _
  rw [htext, asciiGetString_textBytes hascii, RemoteProcessInfo.setValue, String.toList_ofList,
    hcut]
  dsimp only
  rw [if_pos rfl, String.ofList_toList]

theorem setValue_pid (p : NamedProcess) (info : RemoteProcessInfo) :
    info.setValue (DotNet.asciiGetString (pidText p.pid)) = { info with pid := p.pid } := by
  have hascii : ∀ c ∈ "pid=".toList ++ CLib.formatD p.pid, 1 ≤ c.toNat ∧ c.toNat ≤ 127 := by
    rw [List.forall_mem_append]
    exact ⟨by simp, formatD_ascii p.pid⟩
  have hcut : cutAt '=' ("pid=".toList ++ CLib.formatD p.pid) =
      some ("pid".toList, CLib.formatD p.pid) := by
    show cutAt '=' ("pid".toList ++ '=' :: CLib.formatD p.pid) = _
    exact cutAt_append (by simp) _
  rw [pidText, asciiGetString_textBytes hascii, RemoteProcessInfo.setValue, String.toList_ofList,
    hcut]
  dsimp only
  rw [if_neg (by simp), if_pos rfl, intTryParse_formatD p.pid_int32]
  rfl

/-- A string in the payload is one value. -/
theorem readValues_string {data rest s : List UInt8} {offset : Nat}
    (h : data.drop offset = encodeString s ++ rest) (hs : s.length ≤ 32767) (n : Nat)
    (info : RemoteProcessInfo) :
    readValues data (n + 1) offset info =
      readValues data n (offset + (2 + s.length)) (info.setValue (DotNet.asciiGetString s)) := by
  rw [encodeString, List.append_assoc] at h
  have hstring : data.drop (offset + 2) = s ++ rest := by
    rw [← List.drop_drop, h]
    exact List.drop_left' (toLE_length 2 _)
  have hlen := congrArg List.length h
  rw [List.length_drop, List.length_append, toLE_length] at hlen
  rw [readValues, DotNet.toInt16_of_drop h hs]
  show (DotNet.asciiGetStringAt data (offset + 2) s.length >>= fun value => _) = _
  rw [DotNet.asciiGetStringAt_of_drop hstring (by omega), ← Nat.add_assoc]
  rfl

theorem drop_behind {data front rest : List UInt8} {offset : Nat}
    (h : data.drop offset = front ++ rest) : data.drop (offset + front.length) = rest := by
  rw [← List.drop_drop, h, List.drop_left]

/-- An entry in the payload is one process. -/
theorem remoteProcessInfo_entry {data rest : List UInt8} {offset : Nat} (p : NamedProcess)
    (h : data.drop offset = p.entry.bytes ++ rest) (hfit : p.entry.bytes.length ≤ 9000) :
    remoteProcessInfo data offset = .ok (p.info, offset + p.entry.bytes.length) := by
  have hlen := p.entry.bytes_length
  rw [ProcEntry.bytes, List.append_assoc, List.append_assoc] at h
  have hcmd := drop_behind h
  rw [toLE_length] at hcmd
  have hpid := drop_behind hcmd
  rw [encodeString_length] at hpid
  have hcmdLen := cmdText_length p.entry.cmd
  rw [remoteProcessInfo, DotNet.toInt16_of_drop h (by omega)]
  show readValues data 2 (offset + 2) ⟨none, 0⟩ = _
  rw [readValues_string hcmd (by omega), readValues_string hpid (by omega)]
  show Except.ok (RemoteProcessInfo.setValue (RemoteProcessInfo.setValue ⟨none, 0⟩ _)
    (DotNet.asciiGetString (pidText p.pid)), _) = _
  rw [setValue_cmd, setValue_pid, hlen, hcmdLen]
  congr 2
  show offset + 2 + (2 + (4 + p.entry.cmd.length)) + (2 + (pidText p.entry.pid).length) = _
  omega

theorem readProcesses_entries {data rest : List UInt8} {offset : Nat} (ps : List NamedProcess)
    (h : data.drop offset = entriesBytes (ps.map NamedProcess.entry) ++ rest)
    (hfit : (entriesBytes (ps.map NamedProcess.entry)).length ≤ 9000) :
    readProcesses data ps.length offset = .ok (ps.map NamedProcess.info) := by
  induction ps generalizing offset with
  | nil => rfl
  | cons p ps ih =>
      rw [List.map_cons, entriesBytes_cons, List.length_append] at hfit
      rw [List.map_cons, entriesBytes_cons, List.append_assoc] at h
      rw [List.length_cons, readProcesses, remoteProcessInfo_entry p h (by omega)]
      show (readProcesses data ps.length (offset + p.entry.bytes.length) >>= fun rest =>
        pure (p.info :: rest)) = _
      rw [ih (drop_behind h) (by omega)]
      rfl

theorem handlerRemoteProcesses_entries (ps : List NamedProcess)
    (hfit : (entriesBytes (ps.map NamedProcess.entry)).length ≤ 9000) :
    handlerRemoteProcesses (CLib.writeInt32T ps.length ++ entriesBytes (ps.map NamedProcess.entry)) =
      .ok (ps.map NamedProcess.info) := by
  generalize hdata : CLib.writeInt32T ps.length ++ entriesBytes (ps.map NamedProcess.entry) = data
  have hcount : data.drop 0 =
      CLib.writeInt32T ps.length ++ entriesBytes (ps.map NamedProcess.entry) :=
    hdata.symm
  have hentries : data.drop 4 = entriesBytes (ps.map NamedProcess.entry) ++ [] := by
    rw [← hdata, List.append_nil]
    exact List.drop_left' rfl
  have hlen := length_le_entriesBytes (ps.map NamedProcess.entry)
  rw [List.length_map] at hlen
  have hvalue : Int.bmod (fromLE (CLib.writeInt32T ps.length)) (2 ^ 32) = ps.length :=
    CLib.int32_fromLE_writeInt32T (by omega) (by omega)
  rw [handlerRemoteProcesses, DotNet.toInt32_of_drop hcount rfl, hvalue]
  exact readProcesses_entries ps hentries hfit

/-! ## The buffer of the PROC handler -/

/-- A table that fits into the buffer is sent complete. -/
theorem handlerProc_returns (fresh : Memory UInt8) {table : List Proc}
    (hfit : 4 + (entriesBytes (procEntries table)).length ≤ 9000) :
    ∃ writes : List Nat, (∀ i ∈ writes, i < 9000) ∧
      (handlerProc fresh table).Returns (writes.map .write ++ [.send rprc
        (CLib.writeInt32T (procEntries table).length ++ entriesBytes (procEntries table))
        ((4 + (entriesBytes (procEntries table)).length : Nat) : Int)]) () := by
  have hstart : Written ⟨fresh, 4, 0⟩ [] := ⟨rfl, rfl, rfl⟩
  obtain ⟨st, ⟨loopWrites, hloop, hrun⟩, hst⟩ := handlerProcLoop_returns hstart hfit
  rw [List.nil_append] at hst
  obtain ⟨countWrites, hcount, hstore⟩ := storeAt_returns st.outputBuffer 0
    (CLib.writeInt32T st.procCounter) (by simp)
  refine ⟨loopWrites ++ countWrites, ?_, ?_⟩
  · intro i hi
    exact (List.mem_append.mp hi).elim (hloop i) (hcount i)
  · rw [List.map_append, List.append_assoc]
    have hall : (st.outputBuffer.store 0 (CLib.writeInt32T st.procCounter)).Holds 0
        (CLib.writeInt32T st.procCounter ++ entriesBytes (procEntries table)) :=
      Memory.holds_append.mpr ⟨Memory.holds_store_self _ _ _,
        Memory.holds_store_of_disjoint hst.holds (.inr (by simp))⟩
    rw [Memory.Holds, List.length_append, CLib.writeInt32T_length] at hall
    have hdata : (st.outputBuffer.store 0 (CLib.writeInt32T st.procCounter)).load 0
        st.currentBufferOffset = CLib.writeInt32T (procEntries table).length ++
          entriesBytes (procEntries table) := by
      rw [hst.offset_eq, hall, hst.counter_eq]
    have hlength : CLib.int16 st.currentBufferOffset =
        ((4 + (entriesBytes (procEntries table)).length : Nat) : Int) := by
      rw [hst.offset_eq, int16_natCast (by omega)]
    refine hrun.bind (hstore.bind ?_)
    rw [hdata, hlength]
    exact returns_emit _

/-! ## Both ends together -/

/-- A packet as it is handed to `send_packet`: receiver, data and length. -/
abbrev SentPacket := List UInt8 × List UInt8 × Int

/-- The packets the EXEC handler sends. -/
def execSends (trace : List ExecEvent) : List SentPacket :=
  trace.filterMap fun
    | .send receiver data dataLength => some (receiver, data, dataLength)
    | _ => none

/-- The packets the PROC handler sends. -/
def procSends (trace : List ProcEvent) : List SentPacket :=
  trace.filterMap fun
    | .send receiver data dataLength => some (receiver, data, dataLength)
    | _ => none

@[simp] theorem execSends_append (front back : List ExecEvent) :
    execSends (front ++ back) = execSends front ++ execSends back :=
  List.filterMap_append

@[simp] theorem execSends_reads (reads : List Nat) : execSends (reads.map .read) = [] := by
  induction reads with
  | nil => rfl
  | cons i rest ih => exact ih

@[simp] theorem procSends_append (front back : List ProcEvent) :
    procSends (front ++ back) = procSends front ++ procSends back :=
  List.filterMap_append

@[simp] theorem procSends_writes (writes : List Nat) : procSends (writes.map .write) = [] := by
  induction writes with
  | nil => rfl
  | cons i rest ih => exact ih

/-- The REXS packet of the EXEC handler, as the client reads it. -/
theorem exec_response (world : SpawnWorld) {data : Memory UInt8} {dataLength : Nat}
    {c : ExecEncoding} (hc : c.bytes <+: data.load 0 dataLength) {name : String}
    (hascii : ∀ ch ∈ name.toList, 1 ≤ ch.toNat ∧ ch.toNat ≤ 127)
    (hname : c.name = DotNet.asciiGetBytes name) (hlen : 2 + name.toList.length + 8 ≤ 32767)
    (hpid : -2 ^ 31 ≤ world.pid ∧ world.pid < 2 ^ 31)
    (hstatus : -2 ^ 31 ≤ world.spawnResult ∧ world.spawnResult < 2 ^ 31) :
    ∃ trace response, (handlerExec world data dataLength).Returns trace () ∧
      execSends trace = [(rexs, response, (response.length : Int))] ∧
      handlerExecStatus response =
        .ok ⟨name, if world.spawnResult = 0 then world.pid else 0, world.spawnResult⟩ := by
  obtain ⟨header, args, env, -, hrun⟩ := handlerExec_returns world c hc
  have hbytes : c.name.length = name.toList.length := by
    rw [hname, DotNet.asciiGetBytes_length]
  have htake : (cString c.name).take c.name.length = DotNet.asciiGetBytes name := by
    rw [hname, cString_of_nonzero (DotNet.asciiGetBytes_ne_zero hascii), List.take_left]
  have hresponse : c.response world = encodeString (DotNet.asciiGetBytes name) ++
      (CLib.writeInt32T (if world.spawnResult = 0 then world.pid else 0) ++
        CLib.writeInt32T world.spawnResult) := by
    rw [ExecEncoding.response, htake, ite_not]
  refine ⟨_, c.response world, hrun, ?_, ?_⟩
  · have hlength : CLib.int16 (2 + c.name.length + 2 * 4) = (c.response world).length := by
      rw [hresponse, List.length_append, List.length_append, encodeString_length,
        DotNet.asciiGetBytes_length, CLib.writeInt32T_length, CLib.writeInt32T_length, hbytes]
      exact int16_natCast (n := 2 + name.toList.length + (4 + 4)) (by omega)
    simp only [execSends_append, execSends_reads, List.nil_append]
    show [(rexs, c.response world, CLib.int16 (2 + c.name.length + 2 * 4))] = _
    rw [hlength]
  · rw [hresponse]
    refine handlerExecStatus_encoded hascii (by omega) ?_ hstatus
    split
    · exact hpid
    · decide

/-- The RPRC packet of the PROC handler, as the client reads it. -/
theorem proc_response (fresh : Memory UInt8) {ps : List NamedProcess}
    (hfit : 4 + (entriesBytes (ps.map NamedProcess.entry)).length ≤ 9000) :
    ∃ trace data, (handlerProc fresh (ps.map NamedProcess.proc)).Returns trace () ∧
      procSends trace = [(rprc, data, (data.length : Int))] ∧
      handlerRemoteProcesses data = .ok (ps.map NamedProcess.info) := by
  rw [← procEntries_named] at hfit
  obtain ⟨writes, -, hrun⟩ := handlerProc_returns fresh hfit
  rw [procEntries_named] at hfit hrun
  rw [List.length_map] at hrun
  refine ⟨_, CLib.writeInt32T ps.length ++ entriesBytes (ps.map NamedProcess.entry), hrun, ?_, ?_⟩
  · rw [procSends_append, procSends_writes, List.nil_append, List.length_append,
      CLib.writeInt32T_length]
    rfl
  · exact handlerRemoteProcesses_entries ps (by omega)

/-- The client decodes what the server has encoded: the name and the status of a
started program, and its id if it was started; the processes of a table that fits
into the buffer, in order, whatever is in their commands. -/
theorem responses_agree (world : SpawnWorld) (data : Memory UInt8) (dataLength : Nat)
    (c : ExecEncoding) (hc : c.bytes <+: data.load 0 dataLength) (name : String)
    (hascii : ∀ ch ∈ name.toList, 1 ≤ ch.toNat ∧ ch.toNat ≤ 127)
    (hname : c.name = DotNet.asciiGetBytes name) (hlen : 2 + name.toList.length + 8 ≤ 32767)
    (hpid : -2 ^ 31 ≤ world.pid ∧ world.pid < 2 ^ 31)
    (hstatus : -2 ^ 31 ≤ world.spawnResult ∧ world.spawnResult < 2 ^ 31)
    (fresh : Memory UInt8) (ps : List NamedProcess)
    (hfit : 4 + (entriesBytes (ps.map NamedProcess.entry)).length ≤ 9000) :
    (∃ trace response, (handlerExec world data dataLength).Returns trace () ∧
      execSends trace = [(rexs, response, (response.length : Int))] ∧
      handlerExecStatus response =
        .ok ⟨name, if world.spawnResult = 0 then world.pid else 0, world.spawnResult⟩) ∧
    (∃ trace data, (handlerProc fresh (ps.map NamedProcess.proc)).Returns trace () ∧
      procSends trace = [(rprc, data, (data.length : Int))] ∧
      handlerRemoteProcesses data = .ok (ps.map NamedProcess.info)) :=
  ⟨exec_response world hc hascii hname hlen hpid hstatus, proc_response fresh hfit⟩

/-- An encoding with empty lists. -/
def lsEncoding : ExecEncoding where
  name := DotNet.asciiGetBytes "ls"
  path := DotNet.asciiGetBytes "/bin/ls"
  args := []
  env := []
  name_le := by decide
  path_le := by decide
  args_le := by decide
  env_le := by decide
  arg_le := by simp
  item_le := by simp

/-- A process whose command contains the separator. -/
def dashEqual : NamedProcess := ⟨"a=b", -7, by simp, by decide⟩

def shell : NamedProcess := ⟨"/bin/sh -i", 4711, by simp, by decide⟩

/-- A program that was started, and a table of two processes. -/
theorem responses_agree_ls :
    (∃ trace response, (handlerExec ⟨fun _ => false, fun _ => 0, 0, 42⟩
        (Memory.store (fun _ => 0) 0 lsEncoding.bytes) lsEncoding.bytes.length).Returns trace () ∧
      execSends trace = [(rexs, response, (response.length : Int))] ∧
      handlerExecStatus response = .ok ⟨"ls", if (0 : Int) = 0 then 42 else 0, 0⟩) ∧
    (∃ trace data,
      (handlerProc (fun _ => 0) ([dashEqual, shell].map NamedProcess.proc)).Returns trace () ∧
      procSends trace = [(rprc, data, (data.length : Int))] ∧
      handlerRemoteProcesses data = .ok ([dashEqual, shell].map NamedProcess.info)) :=
  responses_agree ⟨fun _ => false, fun _ => 0, 0, 42⟩ _ _ lsEncoding
    (Memory.prefix_of_holds (Memory.holds_store_self _ _ _) (Nat.le_refl _)) "ls" (by simp) rfl
    (by simp) (by simp) (by simp) (fun _ => 0) [dashEqual, shell] (by decide)

/-- The id of a program that could not be started is not sent: id 42 with status 2
arrives as id 0. -/
theorem exec_response_drops_pid :
    ¬∀ (name : String) (pid status : Int), (∀ ch ∈ name.toList, 1 ≤ ch.toNat ∧ ch.toNat ≤ 127) →
      2 + name.toList.length + 8 ≤ 32767 → (-2 ^ 31 ≤ pid ∧ pid < 2 ^ 31) →
      (-2 ^ 31 ≤ status ∧ status < 2 ^ 31) →
      ∃ response, statusResponse (fun _ => 0) (DotNet.asciiGetBytes name ++ [0]) name.toList.length
          pid status = some response ∧ handlerExecStatus response = .ok ⟨name, pid, status⟩ := by
  intro hall
  obtain ⟨response, hresponse, hdecoded⟩ := hall "ls" 42 2 (by simp) (by simp) (by simp)
    (by simp)
  have hsent : statusResponse (fun _ => 0) (DotNet.asciiGetBytes "ls" ++ [0]) 2 42 2 =
      some (encodeString (DotNet.asciiGetBytes "ls") ++ (CLib.writeInt32T 0 ++ CLib.writeInt32T 2)) :=
    statusResponse_eq (fun _ => 0) (by simp) 42 2
  have hread : handlerExecStatus (encodeString (DotNet.asciiGetBytes "ls") ++
      (CLib.writeInt32T 0 ++ CLib.writeInt32T 2)) = .ok ⟨"ls", 0, 2⟩ :=
    handlerExecStatus_encoded (by simp) (by simp) (by simp) (by simp)
  rw [Option.some.inj (hresponse.symm.trans hsent), hread] at hdecoded
  have hpid := congrArg ExecStatus.pid (Except.ok.inj hdecoded)
  exact absurd hpid (by simp)

/-! ## Tables of any size -/

/-- What the PROC handler owes to its buffer and to the client. -/
structure StaysInBuffer (table : List Proc) (trace : List ProcEvent) : Prop where
  writes_inside : ∀ i, .write i ∈ trace → i < 9000
  length_le : ∀ receiver data n, .send receiver data n ∈ trace → n ≤ 9000
  /-- The count in the first four bytes is the number of entries in the payload. -/
  count_eq : ∀ receiver data n, .send receiver data n ∈ trace →
    CLib.int32 (fromLE (data.take 4)) =
      presentEntries (procEntries table) ((data.take n.toNat).drop 4)

theorem staysInBuffer_of_fit (fresh : Memory UInt8) {table : List Proc}
    (hfit : 4 + (entriesBytes (procEntries table)).length ≤ 9000) {trace : List ProcEvent}
    (htrace : (handlerProc fresh table).Behaviour trace) : StaysInBuffer table trace := by
  obtain ⟨writes, hwrites, hrun⟩ := handlerProc_returns fresh hfit
  rw [hrun] at htrace
  change trace = _ at htrace
  subst htrace
  have hlen := length_le_entriesBytes (procEntries table)
  refine ⟨?_, ?_, ?_⟩
  · intro i hi
    apply hwrites i
    simpa using hi
  · intro receiver data n hsend
    simp only [List.mem_append, List.mem_map, List.mem_singleton, reduceCtorEq, and_false,
      exists_false, false_or, ProcEvent.send.injEq] at hsend
    omega
  · intro receiver data n hsend
    simp only [List.mem_append, List.mem_map, List.mem_singleton, reduceCtorEq, and_false,
      exists_false, false_or, ProcEvent.send.injEq] at hsend
    obtain ⟨-, rfl, rfl⟩ := hsend
    have hpayload : (CLib.writeInt32T (procEntries table).length ++
        entriesBytes (procEntries table)).take
          ((4 + (entriesBytes (procEntries table)).length : Nat) : Int).toNat =
        CLib.writeInt32T (procEntries table).length ++ entriesBytes (procEntries table) := by
      rw [Int.toNat_natCast]
      exact List.take_of_length_le (by simp)
    have hcount : (CLib.writeInt32T (procEntries table).length ++
        entriesBytes (procEntries table)).take 4 = CLib.writeInt32T (procEntries table).length :=
      List.take_left' rfl
    have hentries : (CLib.writeInt32T (procEntries table).length ++
        entriesBytes (procEntries table)).drop 4 = entriesBytes (procEntries table) ++ [] := by
      rw [List.append_nil]
      exact List.drop_left' rfl
    rw [hpayload, hcount, hentries, presentEntries_all,
      CLib.int32_fromLE_writeInt32T (by omega) (by omega)]

/-- Whatever is sent, the first four bytes count the processes with a command line. -/
theorem handlerProc_count {fresh : Memory UInt8} {table : List Proc} {events : List ProcEvent}
    {u : Unit} (h : (handlerProc fresh table).Returns events u) :
    ∃ data n, .send rprc data n ∈ events ∧
      CLib.int32 (fromLE (data.take 4)) = (procEntries table).length := by
  obtain ⟨front, st, back, hloop, htail, rfl⟩ := h.of_bind
  obtain ⟨writes, buffer, last, hstore, hsend, rfl⟩ := htail.of_bind
  obtain ⟨_, _, _, -, hstored, -⟩ := hstore.of_bind
  obtain ⟨rfl, -⟩ := hstored.of_pure
  obtain ⟨hcounter, hlt, hoffset⟩ := handlerProcLoop_of_returns hloop (Nat.le_refl 4)
    (show 0 < 2 ^ 31 by simp)
  cases hsend
  refine ⟨(st.outputBuffer.store 0 (CLib.writeInt32T st.procCounter)).load 0 st.currentBufferOffset,
    CLib.int16 st.currentBufferOffset, by simp, ?_⟩
  have htake : ((st.outputBuffer.store 0 (CLib.writeInt32T st.procCounter)).load 0
      st.currentBufferOffset).take 4 = CLib.writeInt32T st.procCounter := by
    obtain ⟨k, hk⟩ := Nat.exists_eq_add_of_le hoffset
    rw [hk, Memory.load_add, List.take_left' (Memory.load_length _ _ _)]
    exact Memory.holds_store_self st.outputBuffer 0 (CLib.writeInt32T st.procCounter)
  rw [htake, CLib.int32_fromLE_writeInt32T (by omega) (by omega), hcounter]
  simp

/-- A handler that stays inside its buffer has sent all entries. -/
theorem fit_of_staysInBuffer {fresh : Memory UInt8} {table : List Proc}
    (hall : ∀ trace, (handlerProc fresh table).Behaviour trace → StaysInBuffer table trace) :
    4 + (entriesBytes (procEntries table)).length ≤ 9000 := by
  have hbad : ∀ trace, ProcEvent.write 9000 ∈ trace → ¬StaysInBuffer table trace :=
    fun trace hmem hstays => Nat.lt_irrefl _ (hstays.writes_inside _ hmem)
  obtain ⟨events, u, hreturns, hstays⟩ := Traced.returns_of_behaviours hall hbad
  obtain ⟨data, n, hsend, hcount⟩ := handlerProc_count hreturns
  have hle := hstays.length_le _ _ _ hsend
  have hpresent := hstays.count_eq _ _ _ hsend
  rw [hcount] at hpresent
  -- all entries are in the payload, so they are no longer than it
  have hroom := entriesBytes_length_le (Int.ofNat.inj hpresent).symm
  rw [List.length_drop, List.length_take] at hroom
  omega

/-- The PROC handler keeps its writes and its packet inside the buffer of 9000
bytes, and its count right, exactly when the whole table fits into that buffer. -/
theorem handlerProc_stays_iff (fresh : Memory UInt8) (table : List Proc) :
    (∀ trace, (handlerProc fresh table).Behaviour trace → StaysInBuffer table trace) ↔
      4 + (entriesBytes (procEntries table)).length ≤ 9000 :=
  ⟨fit_of_staysInBuffer, fun hfit _ htrace => staysInBuffer_of_fit fresh hfit htrace⟩

/-- Process 1, with a command line of `n` letters. -/
def processOfLength (n : Nat) : Proc where
  cmdline := some (List.replicate n 0x61)
  tid := 1
  cmdline_ne_zero := by
    intro s hs b hb
    rw [← Option.mem_some_iff.mp hs] at hb
    rw [List.eq_of_mem_replicate hb]
    decide
  tid_int32 := by decide

theorem entriesBytes_processOfLength (n : Nat) :
    (entriesBytes (procEntries [processOfLength n])).length = n + 15 := by
  have hpid : (pidText 1).length = 5 := by decide
  rw [procEntries_cons_some rfl, entriesBytes_cons, List.length_append, ProcEntry.bytes_length,
    List.length_replicate]
  show 2 + (2 + (4 + n) + (2 + (pidText 1).length)) + 0 = _
  omega

/-- With a command line of 8990 bytes the entry is counted, but neither of its
strings is written, and the length that is sent is 9003. -/
theorem handlerProc_leaves_buffer :
    ¬∀ trace, (handlerProc (fun _ => 0) [processOfLength 8990]).Behaviour trace →
      StaysInBuffer [processOfLength 8990] trace := by
  intro hall
  have hfit := fit_of_staysInBuffer hall
  rw [entriesBytes_processOfLength] at hfit
  omega

end InMemoryFuzzing.RemoteControl

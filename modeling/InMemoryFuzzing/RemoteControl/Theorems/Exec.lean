import InMemoryFuzzing.RemoteControl.ExecClient
import InMemoryFuzzing.RemoteControl.ExecLogic

/-!
# EXEC: what the client encodes is what the server starts, and what else it starts

On a payload of the client's encoder the handler starts the program the client
named. On any other payload it depends on its checks: `handlerExec_robust_iff`
says for which payloads the handler stays inside the payload, keeps to the life
of its two lists and starts nothing that was not asked for.
-/

namespace InMemoryFuzzing.RemoteControl

open Base Platform

/-! ## The client's encoding -/

theorem stringData_eq {s : String} (h : (DotNet.asciiGetBytes s).length ≤ 32767) :
    RemoteExecCommand.stringData s = encodeString (DotNet.asciiGetBytes s) := by
  rw [RemoteExecCommand.stringData, DotNet.getBytesInt16_castInt16, Nat.mod_eq_of_lt (by omega),
    encodeString]

theorem listData_eq {items : List String} (hcount : items.length ≤ 32767)
    (h : ∀ s ∈ items, (DotNet.asciiGetBytes s).length ≤ 32767) :
    RemoteExecCommand.listData items = encodeList (items.map DotNet.asciiGetBytes) := by
  have hitems : items.map RemoteExecCommand.stringData =
      (items.map DotNet.asciiGetBytes).map encodeString := by
    rw [List.map_map]
    exact List.map_congr_left fun s hs => stringData_eq (h s hs)
  rw [RemoteExecCommand.listData, DotNet.getBytesInt16_castInt16, Nat.mod_eq_of_lt (by omega), hitems,
    encodeList, List.length_map]

theorem stringData_length (s : String) :
    (RemoteExecCommand.stringData s).length = 2 + (DotNet.asciiGetBytes s).length := by
  simp [RemoteExecCommand.stringData, DotNet.getBytesInt16]

/-- A list is no longer than its encoding, and neither is any of its strings. -/
theorem listData_bounds (items : List String) :
    items.length ≤ (RemoteExecCommand.listData items).length ∧
      ∀ s ∈ items, (DotNet.asciiGetBytes s).length ≤ (RemoteExecCommand.listData items).length := by
  have hlen : (RemoteExecCommand.listData items).length =
      2 + ((items.map RemoteExecCommand.stringData).flatten).length := by
    simp [RemoteExecCommand.listData, DotNet.getBytesInt16]
  rw [hlen]
  induction items with
  | nil => simp
  | cons s rest ih =>
      obtain ⟨hcount, hmem⟩ := ih (by simp [RemoteExecCommand.listData, DotNet.getBytesInt16])
      have hs := stringData_length s
      simp only [List.map_cons, List.flatten_cons, List.length_append, List.length_cons,
        List.forall_mem_cons]
      refine ⟨by omega, by omega, fun t ht => ?_⟩
      have := hmem t ht
      omega

/-- No field of a payload that fits into a packet overflows its `int16`. -/
theorem RemoteExecCommand.data_bounds {cmd : RemoteExecCommand} (hsize : cmd.data.length ≤ 9990) :
    (∀ s ∈ [cmd.name, cmd.path] ++ cmd.args ++ cmd.envp, (DotNet.asciiGetBytes s).length ≤ 32767) ∧
      cmd.args.length ≤ 32767 ∧ cmd.envp.length ≤ 32767 := by
  have hlen : cmd.data.length = (stringData cmd.name).length + ((stringData cmd.path).length +
      ((listData cmd.args).length + (listData cmd.envp).length)) := by
    simp only [data, List.length_append]
  have hname := stringData_length cmd.name
  have hpath := stringData_length cmd.path
  obtain ⟨hargs, harg⟩ := listData_bounds cmd.args
  obtain ⟨henvp, henv⟩ := listData_bounds cmd.envp
  refine ⟨?_, by omega, by omega⟩
  intro s hs
  simp only [List.mem_append, List.mem_cons, List.not_mem_nil, or_false] at hs
  rcases hs with ((rfl | rfl) | hs) | hs
  · omega
  · omega
  · have := harg s hs
    omega
  · have := henv s hs
    omega

/-- The fields of a command whose payload fits into a packet. -/
def RemoteExecCommand.encoding (cmd : RemoteExecCommand) (hsize : cmd.data.length ≤ 9990) :
    ExecEncoding where
  name := DotNet.asciiGetBytes cmd.name
  path := DotNet.asciiGetBytes cmd.path
  args := cmd.args.map DotNet.asciiGetBytes
  env := cmd.envp.map DotNet.asciiGetBytes
  name_le := (data_bounds hsize).1 _ (by simp)
  path_le := (data_bounds hsize).1 _ (by simp)
  args_le := by simpa using (data_bounds hsize).2.1
  env_le := by simpa using (data_bounds hsize).2.2
  arg_le := by
    intro a ha
    obtain ⟨s, hs, rfl⟩ := List.mem_map.mp ha
    exact (data_bounds hsize).1 s (by simp [hs])
  item_le := by
    intro e he
    obtain ⟨s, hs, rfl⟩ := List.mem_map.mp he
    exact (data_bounds hsize).1 s (by simp [hs])

theorem RemoteExecCommand.encoding_bytes (cmd : RemoteExecCommand)
    (hsize : cmd.data.length ≤ 9990) : (cmd.encoding hsize).bytes = cmd.data := by
  obtain ⟨hstrings, hargs, henvp⟩ := data_bounds hsize
  rw [data, stringData_eq (hstrings _ (by simp)), stringData_eq (hstrings _ (by simp)),
    listData_eq hargs (fun s hs => hstrings s (by simp [hs])),
    listData_eq henvp (fun s hs => hstrings s (by simp [hs]))]
  rfl

/-! ## Strings without a terminator inside -/

theorem cString_of_nonzero {s : List UInt8} (h : ∀ b ∈ s, b ≠ 0) : cString s = s ++ [0] := by
  rw [cString, CLib.strncpy_of_nonzero (Nat.le_refl _) (by rwa [List.take_length]),
    List.take_length]

theorem strdup_cString {s : List UInt8} (h : ∀ b ∈ s, b ≠ 0) :
    CLib.strdup (cString s) = s ++ [0] := by
  have htext : (s ++ [0]).takeWhile (· ≠ 0) = s := by
    rw [List.takeWhile_append_of_pos (by simpa using h)]
    simp
  rw [cString_of_nonzero h, CLib.strdup, htext]

/-- A string as `posix_spawn` gets it. -/
def spawnString (s : String) : List UInt8 := DotNet.asciiGetBytes s ++ [0]

/-- A list of strings as `posix_spawn` gets it: a pointer each, and a null pointer. -/
def spawnList (items : List String) : ListPtr :=
  .live ((items.map fun s => .str (spawnString s)) ++ [.null])

/-- The `posix_spawn` calls of a run. -/
def spawnCalls (trace : List ExecEvent) : List SpawnCall :=
  trace.filterMap fun
    | .spawn call => some call
    | _ => none

@[simp] theorem spawnCalls_append (front back : List ExecEvent) :
    spawnCalls (front ++ back) = spawnCalls front ++ spawnCalls back :=
  List.filterMap_append

@[simp] theorem spawnCalls_reads (reads : List Nat) : spawnCalls (reads.map .read) = [] := by
  induction reads with
  | nil => rfl
  | cons i rest ih => exact ih

/-- A command of NUL-free ASCII strings is the call it is meant to be. -/
theorem RemoteExecCommand.encoding_call {cmd : RemoteExecCommand}
    (hascii : ∀ s ∈ [cmd.name, cmd.path] ++ cmd.args ++ cmd.envp, ∀ c ∈ s.toList,
      1 ≤ c.toNat ∧ c.toNat ≤ 127)
    (hsize : cmd.data.length ≤ 9990) :
    (cmd.encoding hsize).call = ⟨spawnString cmd.name, spawnString cmd.path,
      spawnList (cmd.path :: cmd.args), spawnList cmd.envp⟩ := by
  have hstring : ∀ s ∈ [cmd.name, cmd.path] ++ cmd.args ++ cmd.envp,
      cString (DotNet.asciiGetBytes s) = spawnString s := fun s hs =>
    cString_of_nonzero (DotNet.asciiGetBytes_ne_zero (hascii s hs))
  have hwords : ∀ items : List String,
      (∀ s ∈ items, s ∈ [cmd.name, cmd.path] ++ cmd.args ++ cmd.envp) →
      ListPtr.live (stringWords 0 (items.map DotNet.asciiGetBytes)) = spawnList items := by
    intro items hitems
    rw [stringWords, List.map_map, List.replicate_zero, List.nil_append, spawnList]
    congr 2
    exact List.map_congr_left fun s hs => congrArg Word.str (hstring s (hitems s hs))
  have hargv : ListPtr.live (.str (CLib.strdup (cString (DotNet.asciiGetBytes cmd.path))) ::
      stringWords 0 (cmd.args.map DotNet.asciiGetBytes)) = spawnList (cmd.path :: cmd.args) := by
    have htail : stringWords 0 (cmd.args.map DotNet.asciiGetBytes) =
        (cmd.args.map fun s => .str (spawnString s)) ++ [.null] :=
      ListPtr.live.inj (hwords cmd.args (by simp +contextual))
    rw [strdup_cString (DotNet.asciiGetBytes_ne_zero (hascii cmd.path (by simp))), htail]
    rfl
  show SpawnCall.mk (cString (DotNet.asciiGetBytes cmd.name))
    (cString (DotNet.asciiGetBytes cmd.path)) _ _ = _
  rw [hstring cmd.name (by simp), hstring cmd.path (by simp)]
  exact congrArg₂ _ hargv (hwords cmd.envp (by simp +contextual))

/-- `handler_exec` on the payload of a command takes no early exit and starts the
program of that name and path, with the path and the arguments as its argument
list and with the environment of the command. -/
theorem exec_starts_command (cmd : RemoteExecCommand)
    (hascii : ∀ s ∈ [cmd.name, cmd.path] ++ cmd.args ++ cmd.envp, ∀ c ∈ s.toList,
      1 ≤ c.toNat ∧ c.toNat ≤ 127)
    (hsize : cmd.data.length ≤ 9990) (world : SpawnWorld) (data : Memory UInt8)
    (hdata : data.Holds 0 cmd.data) :
    ∃ trace, (handlerExec world data cmd.data.length).Returns trace () ∧
      ExecEvent.gotoExit ∉ trace ∧
      spawnCalls trace = [⟨spawnString cmd.name, spawnString cmd.path,
        spawnList (cmd.path :: cmd.args), spawnList cmd.envp⟩] := by
  have hbytes : (cmd.encoding hsize).bytes <+: data.load 0 cmd.data.length := by
    rw [cmd.encoding_bytes hsize]
    exact Memory.prefix_of_holds hdata (Nat.le_refl _)
  obtain ⟨header, args, env, -, hrun⟩ := handlerExec_returns world (cmd.encoding hsize) hbytes
  refine ⟨_, hrun, ?_, ?_⟩
  · simp [spawnEvents]
  · rw [← RemoteExecCommand.encoding_call hascii hsize]
    simp only [spawnCalls_append, spawnCalls_reads, List.nil_append]
    rfl

/-- A command with an empty argument and an empty environment. -/
theorem exec_starts_command_ls :
    ∃ trace, (handlerExec ⟨fun _ => false, fun _ => 0, 0, 42⟩
        (Memory.store (fun _ => 0) 0 (RemoteExecCommand.mk "ls" "/bin/ls" ["-l", ""] []).data)
        (RemoteExecCommand.mk "ls" "/bin/ls" ["-l", ""] []).data.length).Returns trace () ∧
      ExecEvent.gotoExit ∉ trace ∧
      spawnCalls trace = [⟨spawnString "ls", spawnString "/bin/ls",
        spawnList ["/bin/ls", "-l", ""], spawnList []⟩] :=
  exec_starts_command ⟨"ls", "/bin/ls", ["-l", ""], []⟩ (by simp) (by decide) _ _
    (Memory.holds_store_self _ _ _)

/-! ## Payloads of any kind -/

/-- The life of a list variable. -/
inductive Life
  | unassigned
  | assigned
  | freed
  deriving DecidableEq

/-- A variable is used only after it has been assigned, and a list that has been
freed is neither used nor freed again. -/
def Disciplined : (argv envp : Life) → List ExecEvent → Prop
  | _, _, [] => True
  | _, envp, .assign .spawnArgv :: rest => Disciplined .assigned envp rest
  | argv, _, .assign .spawnEnvp :: rest => Disciplined argv .assigned rest
  | argv, envp, .use .spawnArgv :: rest => argv = .assigned ∧ Disciplined argv envp rest
  | argv, envp, .use .spawnEnvp :: rest => envp = .assigned ∧ Disciplined argv envp rest
  | argv, envp, .free .spawnArgv :: rest => argv = .assigned ∧ Disciplined .freed envp rest
  | argv, envp, .free .spawnEnvp :: rest => envp = .assigned ∧ Disciplined argv .freed rest
  | argv, envp, _ :: rest => Disciplined argv envp rest

/-- The payload begins with a complete encoding: all lengths and counts are
non-negative, and all that is announced is inside. -/
def WellFormed (payload : List UInt8) : Prop := ∃ c : ExecEncoding, c.bytes <+: payload

/-- What the handler owes to its caller on a payload of `dataLength` bytes. -/
structure Robust (data : Memory UInt8) (dataLength : Nat) (trace : List ExecEvent) : Prop where
  reads_inside : ∀ i, .read i ∈ trace → i < dataLength
  disciplined : Disciplined .unassigned .unassigned trace
  spawn_wellFormed : ∀ call, .spawn call ∈ trace → WellFormed (data.load 0 dataLength)

theorem disciplined_reads (argv envp : Life) (reads : List Nat) (rest : List ExecEvent) :
    Disciplined argv envp (reads.map .read ++ rest) ↔ Disciplined argv envp rest := by
  induction reads with
  | nil => rfl
  | cons i reads ih => exact ih

/-! ### Every early exit reads a variable without a value -/

theorem not_returns_exitFree {v : ListVar} {events : List ExecEvent} {u : Unit} :
    ¬(exitFree v none).Returns events u := by
  intro h
  obtain ⟨_, _, _, -, h, -⟩ := h.of_bind
  exact Traced.not_returns_undefined h

theorem not_returns_exit_argv {envp : Option ListPtr} {events : List ExecEvent} {u : Unit} :
    ¬(handlerExecExit none envp).Returns events u := by
  intro h
  obtain ⟨_, _, _, h, -, -⟩ := h.of_bind
  exact not_returns_exitFree h

theorem not_returns_exit_envp {argv : Option ListPtr} {events : List ExecEvent} {u : Unit} :
    ¬(handlerExecExit argv none).Returns events u := by
  intro h
  obtain ⟨_, _, _, -, h, -⟩ := h.of_bind
  exact not_returns_exitFree h

/-- Without extra items a count is never negative. -/
theorem readStringList_result {freshNull : Nat → Bool} {v : ListVar} {list : ListPtr}
    {readBytes : Nat} {data : Memory UInt8} {base dataLength : Nat} {events : List ExecEvent}
    {r : ListRead}
    (h : (readStringList freshNull v list readBytes data base dataLength 0 0).Returns events r) :
    0 ≤ r.result := by
  rw [readStringList, if_neg (Nat.lt_irrefl 0)] at h
  obtain ⟨_, argCount, _, -, h, -⟩ := h.of_bind
  split at h
  · exact absurd h Traced.not_returns_undefined
  · rename_i hcount
    obtain ⟨_, loop, _, -, h, -⟩ := h.of_bind
    split at h
    · obtain ⟨_, _, _, -, h, -⟩ := h.of_bind
      obtain ⟨_, _, _, -, h, -⟩ := h.of_bind
      obtain ⟨rfl, -⟩ := h.of_pure
      exact Int.le_refl 0
    · obtain ⟨rfl, -⟩ := h.of_pure
      show 0 ≤ argCount
      omega

/-- Whenever the computation returns, it has called `posix_spawn`. -/
def SpawnsBeforeReturn (x : Traced ExecEvent Unit) : Prop :=
  ∀ events u, x.Returns events u → ∃ call, .spawn call ∈ events

theorem SpawnsBeforeReturn.bind {α : Type} {x : Traced ExecEvent α} {f : α → Traced ExecEvent Unit}
    (h : ∀ events a, x.Returns events a → SpawnsBeforeReturn (f a)) :
    SpawnsBeforeReturn (x >>= f) := by
  intro events u hu
  obtain ⟨front, a, back, hx, hf, rfl⟩ := hu.of_bind
  obtain ⟨call, hcall⟩ := h front a hx back u hf
  exact ⟨call, List.mem_append_right _ hcall⟩

theorem posixSpawn_spawns {call : SpawnCall} {f : Unit → Traced ExecEvent Unit} :
    SpawnsBeforeReturn (posixSpawn call >>= f) := by
  intro events u hu
  obtain ⟨front, _, back, hspawn, -, rfl⟩ := hu.of_bind
  obtain ⟨_, _, _, hemit, -, rfl⟩ := hspawn.of_bind
  cases hemit
  exact ⟨call, by simp⟩

/-- The handler returns only through `posix_spawn`: each early exit reads a list
variable that has no value yet. -/
theorem handlerExec_spawns (world : SpawnWorld) (data : Memory UInt8) (dataLength : Nat) :
    SpawnsBeforeReturn (handlerExec world data dataLength) := by
  unfold handlerExec
  have hexit : ∀ envp, SpawnsBeforeReturn (Traced.emit [.gotoExit] >>= fun _ =>
      handlerExecExit none envp) := fun envp =>
    .bind fun _ _ _ _ _ h => absurd h not_returns_exit_argv
  have hexit' : ∀ argv, SpawnsBeforeReturn (Traced.emit [.gotoExit] >>= fun _ =>
      handlerExecExit argv none) := fun argv =>
    .bind fun _ _ _ _ _ h => absurd h not_returns_exit_envp
  split
  · exact hexit none
  refine .bind fun _ programName _ => ?_
  dsimp only
  split
  · exact hexit none
  refine .bind fun _ programPath _ => ?_
  split
  · exact hexit none
  refine .bind fun _ _ _ => .bind fun _ args _ => .bind fun _ spawnArgv _ => ?_
  split
  · exact hexit' _
  split
  · exact hexit' _
  refine .bind fun _ _ _ => .bind fun _ env henv => ?_
  -- the exit behind the second list is never taken: that count is not negative
  rw [if_neg (Int.not_lt.mpr (readStringList_result henv))]
  exact posixSpawn_spawns

theorem robust_of_wellFormed {world : SpawnWorld} {data : Memory UInt8} {dataLength : Nat}
    (c : ExecEncoding) (hc : c.bytes <+: data.load 0 dataLength) {trace : List ExecEvent}
    (htrace : (handlerExec world data dataLength).Behaviour trace) :
    Robust data dataLength trace := by
  obtain ⟨header, args, env, hreads, hrun⟩ := handlerExec_returns world c hc
  rw [hrun] at htrace
  change trace = _ at htrace
  subst htrace
  refine ⟨?_, ?_, fun _ _ => ⟨c, hc⟩⟩
  · intro i hi
    apply hreads i
    simpa [spawnEvents, or_assoc] using hi
  · simp only [List.singleton_append, Disciplined, disciplined_reads, spawnEvents]
    simp

/-- Whatever the payload: the handler reads nothing behind it, keeps to the life
of its lists and starts only what was asked for, exactly when the payload begins
with a complete encoding. -/
theorem handlerExec_robust_iff (world : SpawnWorld) (data : Memory UInt8) (dataLength : Nat) :
    (∀ trace, (handlerExec world data dataLength).Behaviour trace → Robust data dataLength trace) ↔
      WellFormed (data.load 0 dataLength) := by
  constructor
  · intro hall
    have hbad : ∀ trace, ExecEvent.read dataLength ∈ trace → ¬Robust data dataLength trace :=
      fun trace hmem hrobust => Nat.lt_irrefl _ (hrobust.reads_inside _ hmem)
    obtain ⟨events, u, hreturns, hrobust⟩ := Traced.returns_of_behaviours hall hbad
    obtain ⟨call, hcall⟩ := handlerExec_spawns world data dataLength events u hreturns
    exact hrobust.spawn_wellFormed call hcall
  · rintro ⟨c, hc⟩ trace htrace
    exact robust_of_wellFormed c hc htrace

/-- On the empty payload the handler jumps over the initialisers of both lists
and reads `spawn_argv`. -/
theorem handlerExec_not_robust_empty :
    (handlerExec ⟨fun _ => true, fun _ => 0, 0, 42⟩ (fun _ => 0) 0).Behaviour
        [.gotoExit, .use .spawnArgv] ∧
      ¬Disciplined .unassigned .unassigned [.gotoExit, .use .spawnArgv] ∧
      ¬∀ trace, (handlerExec ⟨fun _ => true, fun _ => 0, 0, 42⟩ (fun _ => 0) 0).Behaviour trace →
        Robust (fun _ => 0) 0 trace := by
  have hrun : (handlerExec ⟨fun _ => true, fun _ => 0, 0, 42⟩ (fun _ => 0) 0).Behaviour
      [.gotoExit, .use .spawnArgv] := List.prefix_refl _
  have hlife : ¬Disciplined .unassigned .unassigned [.gotoExit, .use .spawnArgv] := by
    simp [Disciplined]
  exact ⟨hrun, hlife, fun hall => hlife (hall _ hrun).disciplined⟩

end InMemoryFuzzing.RemoteControl

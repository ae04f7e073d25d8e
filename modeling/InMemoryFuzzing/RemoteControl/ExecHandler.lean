import InMemoryFuzzing.Base.Memory
import InMemoryFuzzing.Base.Traced
import InMemoryFuzzing.Platform.CLib

/-!
# The EXEC handler of the server

`handler_exec` and the string readers it uses, as computations that report
every byte of the payload they read and what they do with the two pointer lists
`spawn_argv` and `spawn_envp`. The payload is a pointer into memory and a
length: what lies behind the payload is part of the model, because nothing but
the checks of the handler keeps it from being read.

A jump to `handler_exec_exit` that skips the initialiser of a list variable
leaves that variable without a value; the code behind the label reads it all the
same. Memory is never exhausted: `malloc` returns a fresh block.
-/

namespace InMemoryFuzzing.RemoteControl

open Base Platform

/-- The two lists of strings `handler_exec` builds. -/
inductive ListVar
  | spawnArgv
  | spawnEnvp
  deriving DecidableEq, Repr

/-- A word of a list of strings. -/
inductive Word
  /-- As `malloc` left it. -/
  | uninit
  | null
  /-- A pointer to a buffer of its own. -/
  | str (buffer : List UInt8)
  deriving DecidableEq, Repr

/-- The value of a list variable. -/
inductive ListPtr
  | null
  | live (words : List Word)
  /-- It points to a list that has been freed. -/
  | freed
  deriving DecidableEq, Repr

/-- A call of `posix_spawn`, with the program name the response will carry. -/
structure SpawnCall where
  programName : List UInt8
  path : List UInt8
  argv : ListPtr
  envp : ListPtr
  deriving DecidableEq, Repr

/-- What a run of the handler does. -/
inductive ExecEvent
  /-- Reads `data[index]`. -/
  | read (index : Nat)
  /-- Gives the variable its first value. -/
  | assign (v : ListVar)
  /-- Reads the variable, or the list it points to. -/
  | use (v : ListVar)
  /-- Frees the list the variable points to. -/
  | free (v : ListVar)
  /-- Jumps to `handler_exec_exit` before `posix_spawn`. -/
  | gotoExit
  | spawn (call : SpawnCall)
  /-- `send_packet (receiver, data, dataLength)`; `data` is what the buffer holds. -/
  | send (receiver data : List UInt8) (dataLength : Int)
  deriving DecidableEq, Repr

/-- What the handler meets outside its own code. -/
structure SpawnWorld where
  /-- Whether a word of a fresh list happens to be zero. -/
  freshNull : Nat → Bool
  /-- What a fresh byte buffer happens to hold. -/
  fresh : Memory UInt8
  spawnResult : Int
  pid : Int

open Traced (emit undefined)

/-! ## Strings -/

/-- `read_int16_t (&data[offset])`. -/
def readInt16At (data : Memory UInt8) (offset : Nat) : Traced ExecEvent Int := do
  emit [.read offset, .read (offset + 1)]
  return CLib.readInt16T (data offset) (data (offset + 1))

/-- The indices `strncpy` reads: up to `n`, and none behind a terminator. -/
def strncpyReads (data : Memory UInt8) : Nat → Nat → List Nat
  | _, 0 => []
  | offset, n + 1 => offset :: if data offset = 0 then [] else strncpyReads data (offset + 1) n

/-- What `read_string_malloc` returns: the length, and the buffer it has allocated. -/
structure ReadString where
  length : Nat
  buffer : List UInt8

/-- `read_string_malloc (&buffer, &data[offset])`. -/
def readStringMalloc (data : Memory UInt8) (offset : Nat) : Traced ExecEvent ReadString := do
  let stringLength ← readInt16At data offset
  -- the count of `strncpy` is a `size_t`: a negative length is far larger than the buffer
  if stringLength < 0 then undefined
  else do
    let length := stringLength.toNat
    emit ((strncpyReads data (offset + 2) length).map .read)
    return ⟨length, CLib.strncpy length (data.load (offset + 2) length) ++ [0]⟩

/-! ## Lists of strings -/

/-- The loop of `read_string_list` behind the counter. -/
structure ListLoop where
  error : Bool
  counter : Nat
  offset : Nat
  words : List Word

/-- The `for` loop of `read_string_list`, with `n` strings to go. -/
def readItems (data : Memory UInt8) (base dataLength startIndex : Nat) :
    Nat → (counter offset : Nat) → List Word → Traced ExecEvent ListLoop
  | 0, counter, offset, words => return ⟨false, counter, offset, words⟩
  | n + 1, counter, offset, words =>
      if dataLength < offset + 2 then return ⟨true, counter, offset, words⟩
      else do
        let arg ← readStringMalloc data (base + offset)
        readItems data base dataLength startIndex n (counter + 1) (offset + 2 + arg.length)
          (words.set (counter + startIndex) (.str arg.buffer))

/-- `simple_free` of a word of a list. -/
def freeWord (freshNull : Nat → Bool) (words : List Word) (index : Nat) : Traced ExecEvent Unit :=
  match words[index]? with
  | some (.str _) => return ()
  | some .null => return ()
  -- `free` accepts the null pointer, and nothing else that malloc did not return
  | some .uninit => if freshNull index then return () else undefined
  | none => undefined

/-- The loop of the error path, which frees the items from `counter` down to 0. -/
def freeItems (freshNull : Nat → Bool) (words : List Word) (startIndex : Nat) :
    Nat → Traced ExecEvent Unit
  | 0 => freeWord freshNull words startIndex
  | counter + 1 => do
      freeWord freshNull words (counter + 1 + startIndex)
      freeItems freshNull words startIndex counter

/-- What `read_string_list` returns, and what it leaves in `*read_bytes` and `*list`. -/
structure ListRead where
  result : Int
  readBytes : Nat
  list : ListPtr

/-- `read_string_list (&v, &read_bytes, &data[base], dataLength, extraItems, startIndex)`. -/
def readStringList (freshNull : Nat → Bool) (v : ListVar) (list : ListPtr) (readBytes : Nat)
    (data : Memory UInt8) (base dataLength extraItems startIndex : Nat) :
    Traced ExecEvent ListRead :=
  if extraItems < startIndex then return ⟨-1, readBytes, list⟩
  else do
    let argCount ← readInt16At data base
    -- the terminator is stored in front of the block if the sum is negative
    if argCount + extraItems < 0 then undefined
    else do
      let last := (argCount + extraItems).toNat
      let words := (List.replicate (last + 1) Word.uninit).set last .null
      let loop ← readItems data base dataLength startIndex argCount.toNat 0 2 words
      if loop.error then do
        freeItems freshNull loop.words startIndex loop.counter
        emit [.free v]
        return ⟨0, 0, .freed⟩
      else return ⟨argCount, loop.offset, .live loop.words⟩

/-- The loop of `free_string_list`: it stops at a null pointer, and nowhere else. -/
def walkList : List Word → Traced ExecEvent Unit
  | .str _ :: rest => walkList rest
  | .null :: _ => return ()
  | .uninit :: _ => undefined
  | [] => undefined

/-- `free_string_list (v)`. -/
def freeStringList (v : ListVar) : ListPtr → Traced ExecEvent Unit
  | .null => return ()
  | .live words => do
      emit [.use v]
      walkList words
      emit [.free v]
  | .freed => do
      emit [.use v]
      undefined

/-! ## The handler -/

/-- `if (v != NULL) free_string_list (v)`, where `v` may have no value. -/
def exitFree (v : ListVar) (value : Option ListPtr) : Traced ExecEvent Unit := do
  emit [.use v]
  match value with
  | none => undefined
  | some list => freeStringList v list

/-- The code behind `handler_exec_exit`; the two strings are freed without a look
at their contents. -/
def handlerExecExit (spawnArgv spawnEnvp : Option ListPtr) : Traced ExecEvent Unit := do
  exitFree .spawnArgv spawnArgv
  exitFree .spawnEnvp spawnEnvp

/-- `spawn_argv[0] = strdup (program_path)`. -/
def setFirst (v : ListVar) (list : ListPtr) (buffer : List UInt8) : Traced ExecEvent ListPtr := do
  emit [.use v]
  match list with
  | .live (_ :: rest) => return .live (.str buffer :: rest)
  | _ => undefined

/-- `posix_spawn (&pid, program_path, NULL, NULL, spawn_argv, spawn_envp)`. -/
def posixSpawn (call : SpawnCall) : Traced ExecEvent Unit := do
  emit [.spawn call, .use .spawnArgv, .use .spawnEnvp]
  match call.argv, call.envp with
  | .freed, _ => undefined
  | _, .freed => undefined
  | _, _ => return ()

/-- The buffer `status_response` as it is sent. `pid` is the second field of the
record: 0 if the process could not be started. -/
def statusResponse (fresh : Memory UInt8) (programName : List UInt8) (programNameLength : Nat)
    (pid spawnResult : Int) : Option (List UInt8) := do
  let size := 2 + programNameLength + 2 * 4
  let (_, bytes) ← CLib.writeString size programName programNameLength
  let buffer := fresh.store 0 bytes
  let buffer := buffer.store (programNameLength + 2)
    (CLib.writeInt32T (if spawnResult ≠ 0 then 0 else pid))
  let buffer := buffer.store (programNameLength + 2 + 4) (CLib.writeInt32T spawnResult)
  return buffer.load 0 size

/-- The receiver `REXS`. -/
def rexs : List UInt8 := [0x52, 0x45, 0x58, 0x53]

/-- `handler_exec (data, data_length)`. -/
def handlerExec (world : SpawnWorld) (data : Memory UInt8) (dataLength : Nat) :
    Traced ExecEvent Unit :=
  if dataLength < 2 then do
    emit [.gotoExit]
    handlerExecExit none none
  else do
    let programName ← readStringMalloc data 0
    let offset := 2 + programName.length
    if dataLength < offset + 2 then
      emit [.gotoExit]
      handlerExecExit none none
    else do
      let programPath ← readStringMalloc data offset
      let offset := offset + 2 + programPath.length
      if dataLength < offset + 2 then
        emit [.gotoExit]
        handlerExecExit none none
      else do
        emit [.assign .spawnArgv]
        let args ← readStringList world.freshNull .spawnArgv .null 0 data offset
          (dataLength - offset) 1 1
        let offset := offset + args.readBytes
        let spawnArgv ← setFirst .spawnArgv args.list (CLib.strdup programPath.buffer)
        if args.result < 0 then
          emit [.gotoExit]
          handlerExecExit (some spawnArgv) none
        else if dataLength < offset + 2 then
          emit [.gotoExit]
          handlerExecExit (some spawnArgv) none
        else do
          emit [.assign .spawnEnvp]
          let env ← readStringList world.freshNull .spawnEnvp .null args.readBytes data offset
            (dataLength - offset) 0 0
          if env.result < 0 then
            emit [.gotoExit]
            handlerExecExit (some spawnArgv) (some env.list)
          else do
            posixSpawn ⟨programName.buffer, programPath.buffer, spawnArgv, env.list⟩
            match statusResponse world.fresh programName.buffer programName.length world.pid
                world.spawnResult with
            | none => undefined
            | some response =>
                emit [.send rexs response (CLib.int16 (2 + programName.length + 2 * 4))]
                handlerExecExit (some spawnArgv) (some env.list)

end InMemoryFuzzing.RemoteControl

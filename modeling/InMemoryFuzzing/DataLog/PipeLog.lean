import InMemoryFuzzing.Platform.Stream
import Mathlib.Logic.Function.Basic

/-!
# `RemotePipeLogger`

The log of the pipes: one file for each run, to which the data of all pipes that are logged is
written as it arrives, through a `StreamWriter` that holds back what is in its buffers until it
is closed. The logger does not look at the data, so the elements it is handed are of any type;
`write` is what becomes of them in the file.
-/

namespace InMemoryFuzzing.DataLog

open Platform DotNet

/-- The contents of the files, with elements of any type. -/
abbrev Files (β : Type) := String → Option (List β)

/-- A `StreamWriter`: its file, and what it has been told to write since it created the file. -/
structure StreamWriter (β : Type) where
  file : String
  written : List (List β)

namespace StreamWriter

variable {β : Type}

/-- What is in the file while the writer is open. `AutoFlush` is off: how much the buffers have
passed on behind writes of these lengths is up to the library. -/
def flushed (passed : List Nat → Nat) (w : StreamWriter β) : List β :=
  w.written.flatten.take (passed (w.written.map List.length))

/-- `Write`. -/
def write (w : StreamWriter β) (text : List β) : StreamWriter β :=
  { w with written := w.written ++ [text] }

/-- `Close`: what is still in the buffers goes into the file. -/
def close (w : StreamWriter β) (files : Files β) : Files β :=
  Function.update files w.file (some w.written.flatten)

end StreamWriter

/-- A buffer that passes on 1024 characters at a time. -/
def passedInBlocks (sizes : List Nat) : Nat := sizes.sum / 1024 * 1024

structure RemotePipeLogger (β : Type) where
  logPipeNames : List String
  path : String
  runPrefix : Option String
  sink : Option (StreamWriter β)

namespace RemotePipeLogger

/-- `BuildLogFile`; the prefix may be null. -/
def buildLogFile (path : String) (runPrefix : Option String) : String :=
  let filename :=
    match runPrefix with
    | some p => if p ≠ "" then p ++ ".pipes" else "current.pipes"
    | none => "current.pipes"
  pathCombine path filename

/-- The data of this pipe is logged. -/
def Logs (logPipeNames : List String) (pipeName : String) : Prop :=
  logPipeNames = [] ∨ pipeName ∈ logPipeNames

instance (logPipeNames : List String) (pipeName : String) :
    Decidable (Logs logPipeNames pipeName) := by
  unfold Logs
  infer_instance

variable {α β : Type}

/-- `HandlerPipeData`: without a sink the data is dropped. -/
def handlerPipeData (passed : List Nat → Nat) (write : List α → List β) (l : RemotePipeLogger β)
    (files : Files β) (pipeName : String) (data : List α) (index offset : Nat) :
    RemotePipeLogger β × Files β :=
  if Logs l.logPipeNames pipeName then
    match l.sink with
    | some sink =>
        let sink := sink.write (write ((data.drop index).take offset))
        ({ l with sink := some sink }, Function.update files sink.file (some (sink.flushed passed)))
    | none => (l, files)
  else (l, files)

/-- `FinishedFuzzRun`. -/
def finishedFuzzRun (l : RemotePipeLogger β) (files : Files β) :
    Except NetException (RemotePipeLogger β × Files β) :=
  match l.sink with
  | some sink => .ok ({ l with sink := none }, sink.close files)
  | none => .error .nullReference

/-- `StartingFuzzRun`: the `StreamWriter` replaces the file. -/
def startingFuzzRun (l : RemotePipeLogger β) (files : Files β) : RemotePipeLogger β × Files β :=
  let files :=
    match l.sink with
    | some sink => sink.close files
    | none => files
  let file := buildLogFile l.path l.runPrefix
  ({ l with sink := some ⟨file, []⟩ }, Function.update files file (some []))

/-- The file that was open is closed. -/
theorem startingFuzzRun_files (l : RemotePipeLogger β) (files : Files β) :
    (l.startingFuzzRun files).2 =
      Function.update (l.sink.elim files fun sink => sink.close files)
        (buildLogFile l.path l.runPrefix) (some []) := by
  rw [startingFuzzRun]
  cases l.sink <;> rfl

/-- `Encoding.ASCII.GetString`, and the encoding of the `StreamWriter`. -/
def asciiText (data : List UInt8) : List UInt8 := asciiGetBytes (asciiGetString data)

end RemotePipeLogger

end InMemoryFuzzing.DataLog

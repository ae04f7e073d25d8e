import InMemoryFuzzing.Utils.StreamHelper

/-!
# Logging generated data and replaying it

`DataGeneratorLogger` writes the data of a fuzz run to a file,
`ReplayDataGenerator` is to hand it out again. The replayer reads blocks with a
length in front (`ReadBytesSafe`), as its description of the file format says;
`LogData` writes the bytes alone. `replay_iff` says what is left of the round
trip.
-/

namespace InMemoryFuzzing.DataLog

open Platform DotNet Utils

/-- `BuildLogFile`, the same in both classes; the prefix may be null. -/
def buildLogFile (path : String) (runPrefix : Option String) : String :=
  let filename :=
    match runPrefix with
    | some p => if p ≠ "" then p ++ ".fuzzdata" else "current.fuzzdata"
    | none => "current.fuzzdata"
  pathCombine path filename

/-! ## The logger -/

structure DataGeneratorLogger where
  path : String
  runPrefix : Option String
  logStream : Option FileSink

namespace DataGeneratorLogger

/-- `CloseLogStream`. -/
def closeLogStream (l : DataGeneratorLogger) : DataGeneratorLogger := { l with logStream := none }

/-- `StartingFuzzRun`: an earlier log of the same run is replaced. -/
def startingFuzzRun (l : DataGeneratorLogger) (fs : FileSystem) :
    DataGeneratorLogger × FileSystem :=
  let l := l.closeLogStream
  let logFile := buildLogFile l.path l.runPrefix
  let fs := if fs.existsFile logFile then fs.delete logFile else fs
  let opened := fs.openWrite logFile
  ({ l with logStream := some opened.1 }, opened.2)

/-- `LogData`. -/
def logData (l : DataGeneratorLogger) (fs : FileSystem) (data : List UInt8) :
    DataGeneratorLogger × FileSystem :=
  match l.logStream with
  | some sink =>
      let written := sink.write fs data
      ({ l with logStream := some written.1 }, written.2)
  | none => (l, fs)

/-- `FinishedFuzzRun`. -/
def finishedFuzzRun (l : DataGeneratorLogger) : DataGeneratorLogger := l.closeLogStream

/-- A run: `StartingFuzzRun`, then `LogData` for each array, then
`FinishedFuzzRun`. -/
def logRun (l : DataGeneratorLogger) (fs : FileSystem) (blocks : List (List UInt8)) :
    DataGeneratorLogger × FileSystem :=
  let logged := blocks.foldl (fun (l, fs) data => l.logData fs data) (l.startingFuzzRun fs)
  (logged.1.finishedFuzzRun, logged.2)

end DataGeneratorLogger

/-! ## The replayer -/

structure ReplayDataGenerator where
  path : String
  runPrefix : Option String
  logStream : Option Source

namespace ReplayDataGenerator

/-- `StartingFuzzRun`: `CloseLogStream`, then `OpenLogStream`. -/
def startingFuzzRun (r : ReplayDataGenerator) (fs : FileSystem) : ReplayDataGenerator :=
  { r with logStream := fs.openRead (buildLogFile r.path r.runPrefix) }

/-- `GenerateData`: an array, or null. -/
def generateData (r : ReplayDataGenerator) :
    Except NetException (Option (List UInt8) × ReplayDataGenerator) :=
  match r.logStream with
  | none => .ok (none, r)
  | some src => do
      let (data, src) ← readBytesSafe src
      return (data, { r with logStream := some src })

/-- What `n` calls of `GenerateData` return. -/
def generate (r : ReplayDataGenerator) : Nat → Except NetException (List (Option (List UInt8)))
  | 0 => .ok []
  | n + 1 => do
      let (data, r) ← r.generateData
      let more ← r.generate n
      return data :: more

end ReplayDataGenerator

/-- The replayer returns exactly the arrays of the run. -/
def Replays (l : DataGeneratorLogger) (r : ReplayDataGenerator) (fs : FileSystem)
    (blocks : List (List UInt8)) : Prop :=
  (r.startingFuzzRun (l.logRun fs blocks).2).generate blocks.length = .ok (blocks.map some)

/-! ## The log file -/

/-- The logger is at the end of its file, which holds `contents`. -/
structure Logging (l : DataGeneratorLogger) (fs : FileSystem) (file : String)
    (contents : List UInt8) : Prop where
  stream : l.logStream = some ⟨file, contents.length⟩
  contents_eq : fs file = some contents

/-- A run starts with a new file. -/
theorem DataGeneratorLogger.startingFuzzRun_eq (l : DataGeneratorLogger) :
    l.startingFuzzRun = fun fs => ({ l with logStream := some ⟨buildLogFile l.path l.runPrefix, 0⟩ },
      fs.set (buildLogFile l.path l.runPrefix) (some [])) := by
  funext fs
  rw [startingFuzzRun, closeLogStream]
  dsimp only
  rw [FileSystem.openWrite_deleted]

/-- Whatever was there before, a run starts with an empty file. -/
theorem logging_start (l : DataGeneratorLogger) (fs : FileSystem) :
    Logging (l.startingFuzzRun fs).1 (l.startingFuzzRun fs).2
      (buildLogFile l.path l.runPrefix) [] := by
  rw [DataGeneratorLogger.startingFuzzRun_eq]
  exact ⟨rfl, FileSystem.set_self _ _ _⟩

/-- `LogData` appends the bytes and nothing else. -/
theorem Logging.logData {l : DataGeneratorLogger} {fs : FileSystem} {file : String}
    {contents : List UInt8} (h : Logging l fs file contents) (data : List UInt8) :
    Logging (l.logData fs data).1 (l.logData fs data).2 file (contents ++ data) := by
  have hwrite := @FileSink.write_end ⟨file, contents.length⟩ fs contents h.contents_eq rfl data
  rw [DataGeneratorLogger.logData, h.stream]
  simp only [hwrite]
  exact ⟨rfl, FileSystem.set_self _ _ _⟩

/-- The file of a run is the concatenation of its arrays. -/
theorem logRun_file (l : DataGeneratorLogger) (fs : FileSystem) (blocks : List (List UInt8)) :
    (l.logRun fs blocks).2 (buildLogFile l.path l.runPrefix) = some blocks.flatten := by
  have hrun : ∀ (blocks : List (List UInt8)) (l' : DataGeneratorLogger) (fs' : FileSystem)
      (contents : List UInt8), Logging l' fs' (buildLogFile l.path l.runPrefix) contents →
      (blocks.foldl (fun (l, fs) data => l.logData fs data) (l', fs')).2
        (buildLogFile l.path l.runPrefix) = some (contents ++ blocks.flatten) := by
    intro blocks
    induction blocks with
    | nil =>
        intro l' fs' contents h
        rw [List.flatten_nil, List.append_nil]
        exact h.contents_eq
    | cons data rest ih =>
        intro l' fs' contents h
        rw [List.flatten_cons, ← List.append_assoc]
        exact ih _ _ _ (h.logData data)
  exact hrun blocks _ _ [] (logging_start l fs)

/-! ## What the replayer needs -/

/-- A file in the format that the replayer documents is replayed: each array, or
null, behind its length. -/
theorem generate_writeBytesSafe (blocks : List (Option (List UInt8)))
    (hsizes : ∀ data ∈ blocks, ∀ bytes ∈ data, bytes.length < 2 ^ 31) (r : ReplayDataGenerator)
    (hsrc : r.logStream = some (blocks.flatMap writeBytesSafe)) :
    r.generate blocks.length = .ok blocks := by
  induction blocks generalizing r with
  | nil => rfl
  | cons data rest ih =>
      have hread := readBytesSafe_writeBytesSafe (hsizes data List.mem_cons_self)
        (rest.flatMap writeBytesSafe)
      have hrest := ih (fun d hd => hsizes d (List.mem_cons_of_mem _ hd))
        { r with logStream := some (rest.flatMap writeBytesSafe) } rfl
      rw [List.length_cons, ReplayDataGenerator.generate, ReplayDataGenerator.generateData, hsrc]
      simp only [List.flatMap_cons, bind, Except.bind, hread, pure, Except.pure, hrest]

/-- Arrays that were all replayed took four bytes each besides their own. -/
theorem generate_length {r : ReplayDataGenerator} {src : Source} {blocks : List (List UInt8)}
    (hsrc : r.logStream = some src) (h : r.generate blocks.length = .ok (blocks.map some)) :
    4 * blocks.length + blocks.flatten.length ≤ src.length := by
  induction blocks generalizing r src with
  | nil => simp
  | cons data rest ih =>
      rw [List.length_cons, ReplayDataGenerator.generate, ReplayDataGenerator.generateData,
        hsrc] at h
      cases hread : readBytesSafe src with
      | error e => simp only [hread] at h; cases h
      | ok result =>
          obtain ⟨got, src'⟩ := result
          simp only [hread, bind, Except.bind, pure, Except.pure] at h
          split at h
          · cases h
          · rename_i more hmore
            rw [Except.ok.injEq, List.map_cons, List.cons.injEq] at h
            obtain ⟨rfl, rfl⟩ := h
            have hrest := ih (r := { r with logStream := some src' }) rfl hmore
            have hfirst := readBytesSafe_ok hread
            rw [List.length_cons, List.flatten_cons, List.length_append]
            omega

/-- A replayer for the path and the prefix of the logger returns the arrays of a
run exactly when there were none. -/
theorem replay_iff (l : DataGeneratorLogger) (r : ReplayDataGenerator) (fs : FileSystem)
    (blocks : List (List UInt8)) (hpath : r.path = l.path) (hrun : r.runPrefix = l.runPrefix) :
    Replays l r fs blocks ↔ blocks = [] := by
  constructor
  · intro h
    have hopen : (r.startingFuzzRun (l.logRun fs blocks).2).logStream = some blocks.flatten := by
      show (l.logRun fs blocks).2 (buildLogFile r.path r.runPrefix) = _
      rw [hpath, hrun, logRun_file]
    -- the lengths are missing from the file
    have hlen := generate_length hopen h
    exact List.length_eq_zero_iff.mp (by omega)
  · rintro rfl
    rfl

/-- No array logged, none replayed. -/
theorem replay_iff_empty :
    let l : DataGeneratorLogger := ⟨"./", some "1", none⟩
    let r : ReplayDataGenerator := ⟨"./", some "1", none⟩
    r.path = l.path ∧ r.runPrefix = l.runPrefix ∧ Replays l r (fun _ => none) [] :=
  ⟨rfl, rfl, (replay_iff _ _ _ _ rfl rfl).mpr rfl⟩

/-- One array of one byte: the file is too short for a length. -/
theorem replay_fails :
    let l : DataGeneratorLogger := ⟨"./", some "1", none⟩
    let r : ReplayDataGenerator := ⟨"./", some "1", none⟩
    ¬ Replays l r (fun _ => none) [[0x61]] ∧
      (r.startingFuzzRun (l.logRun (fun _ => none) [[0x61]]).2).generate 1 =
        .error (.argument "Could not read enough bytes!") := by
  intro l r
  have hgen : (r.startingFuzzRun (l.logRun (fun _ => none) [[0x61]]).2).generate 1 =
      .error (.argument "Could not read enough bytes!") := by
    have hopen : (r.startingFuzzRun (l.logRun (fun _ => none) [[0x61]]).2).logStream =
        some [0x61] := logRun_file l (fun _ => none) [[0x61]]
    rw [ReplayDataGenerator.generate, ReplayDataGenerator.generateData, hopen]
    rfl
  refine ⟨?_, hgen⟩
  intro h
  have := hgen.symm.trans h
  cases this

end InMemoryFuzzing.DataLog

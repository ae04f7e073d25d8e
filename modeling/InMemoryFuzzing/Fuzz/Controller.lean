import InMemoryFuzzing.DataLog.ErrorLog

/-!
# `FuzzController.Fuzz`

The loop of a fuzzing session. What the controller uses of the connector, the fuzz
locations and the data logger is an `Environment`: functions on an abstract world,
none of which raises. The debugger stops are the input of the loop; it waits in
`DebugContinue` where they end.

The pre conditions, which run on a thread of their own, are left out.
-/

namespace InMemoryFuzzing.Fuzz

open Platform DotNet DataLog

inductive TriggerEnum
  | start
  | end_
  | location
  /-- A number that is none of the three. -/
  | unnamed (value : Int)
  deriving DecidableEq, Repr

/-- The connector (`createSnapshot`, `restore`, `debugContinue`), the fuzz locations and
the data logger. Snapshots are of type `S`, locations of type `L`; `run` is given the
snapshot of the controller and says which one it has afterwards. -/
structure Environment (W S L : Type) where
  isFinished : L → W → Bool × W
  isTriggered : L → TriggerEnum → W → Bool × W
  run : L → S → W → S × W
  nextFuzzRun : L → W → W
  createSnapshot : W → S × W
  restore : S → W → W
  debugContinue : DebuggerStop → W → W
  finishedFuzzRun : String → W → W
  startingFuzzRun : String → W → W

/-- A call on the data logger, and its `Prefix` at that time. -/
inductive LoggerCall
  | startingFuzzRun (runPrefix : String)
  | finishedFuzzRun (runPrefix : String)
  deriving DecidableEq, Repr

/-- The `Prefix` of the data logger, and the calls so far. -/
structure DataLogger where
  runPrefix : String
  calls : List LoggerCall

/-- The addresses of the two breakpoints. -/
structure Breakpoints where
  snapshotBreakpoint : UInt64
  restoreBreakpoint : UInt64

/-- The controller inside `Fuzz`, its connector's last stop, the files, and the world. -/
structure FuzzState (W S L : Type) where
  fuzzLocation : List L
  snapshot : Option S
  lastDebuggerStop : Option DebuggerStop
  loggerPrefix : Int
  dataLogger : DataLogger
  errorLog : ErrorLog
  fs : FileSystem
  world : W

section

variable {W S L : Type} [DecidableEq L]

namespace FuzzState

/-! ## The loggers -/

/-- `IncrementLoggerPrefix`. -/
def incrementLoggerPrefix (st : FuzzState W S L) : FuzzState W S L :=
  let loggerPrefix := castInt32 (st.loggerPrefix + 1)
  { st with
    loggerPrefix := loggerPrefix
    dataLogger := { st.dataLogger with runPrefix := toString loggerPrefix }
    errorLog := { st.errorLog with runPrefix := some (toString loggerPrefix) } }

/-- `LoggerFinishFuzzRun`. -/
def loggerFinishFuzzRun (env : Environment W S L) (st : FuzzState W S L) : FuzzState W S L :=
  { st with
    dataLogger := { st.dataLogger with
      calls := st.dataLogger.calls ++ [.finishedFuzzRun st.dataLogger.runPrefix] }
    errorLog := st.errorLog.finishedFuzzRun
    world := env.finishedFuzzRun st.dataLogger.runPrefix st.world }

/-- `LoggerStartFuzzRun`. -/
def loggerStartFuzzRun (env : Environment W S L) (st : FuzzState W S L) : FuzzState W S L :=
  { st with
    dataLogger := { st.dataLogger with
      calls := st.dataLogger.calls ++ [.startingFuzzRun st.dataLogger.runPrefix] }
    errorLog := st.errorLog.startingFuzzRun
    world := env.startingFuzzRun st.dataLogger.runPrefix st.world }

/-- `LogDebuggerStop` of the error log. -/
def logDebuggerStop (stop : DebuggerStop) (st : FuzzState W S L) : FuzzState W S L :=
  let logged := st.errorLog.logDebuggerStop st.fs stop
  { st with errorLog := logged.1, fs := logged.2 }

end FuzzState

/-! ## The fuzz locations -/

/-- The variables of the loop in `InvokeFuzzLocations`. -/
structure Invocation (W S L : Type) where
  fuzzLocationsToRemove : List L
  snapshot : S
  world : W

/-- One location: remembered for removal if it is finished, run if it is triggered. -/
def invokeFuzzLocation (env : Environment W S L) (triggerType : TriggerEnum)
    (i : Invocation W S L) (fuzzLocation : L) : Invocation W S L :=
  let (finished, world) := env.isFinished fuzzLocation i.world
  if finished then
    ⟨i.fuzzLocationsToRemove ++ [fuzzLocation], i.snapshot, world⟩
  else
    let (triggered, world) := env.isTriggered fuzzLocation triggerType world
    if triggered then
      let (snapshot, world) := env.run fuzzLocation i.snapshot world
      ⟨i.fuzzLocationsToRemove, snapshot, world⟩
    else ⟨i.fuzzLocationsToRemove, i.snapshot, world⟩

/-- `InvokeFuzzLocations`: the finished ones are removed behind the loop. -/
def invokeFuzzLocations (env : Environment W S L) (triggerType : TriggerEnum) (snapshot : S)
    (st : FuzzState W S L) : S × FuzzState W S L :=
  let i := st.fuzzLocation.foldl (invokeFuzzLocation env triggerType) ⟨[], snapshot, st.world⟩
  (i.snapshot, { st with
    fuzzLocation := i.fuzzLocationsToRemove.foldl List.erase st.fuzzLocation
    snapshot := some i.snapshot
    world := i.world })

/-- `NextFuzzRun` of the fuzz description. -/
def nextFuzzRun (env : Environment W S L) (st : FuzzState W S L) : FuzzState W S L :=
  { st with world := st.fuzzLocation.foldl (fun world l => env.nextFuzzRun l world) st.world }

/-! ## The loop -/

/-- `RestoreAndFuzz`, with a snapshot that is not null. -/
def restoreAndFuzz (env : Environment W S L) (snapshot : S) (st : FuzzState W S L) :
    FuzzState W S L :=
  let (snapshot, st) := invokeFuzzLocations env .end_ snapshot st
  let st := st.loggerFinishFuzzRun env
  let st := { st with world := env.restore snapshot st.world }
  let st := st.incrementLoggerPrefix
  let st := st.loggerStartFuzzRun env
  let st := nextFuzzRun env st
  (invokeFuzzLocations env .start snapshot st).2

/-- The snapshot breakpoint is reached and there is no snapshot yet. -/
def reachSnapshot (env : Environment W S L) (bps : Breakpoints) (st : FuzzState W S L) :
    FuzzState W S L :=
  match st.snapshot, st.lastDebuggerStop with
  | none, some stop =>
      if bps.snapshotBreakpoint = stop.address ∧ stop.stopReason = .breakpoint then
        let st := st.loggerStartFuzzRun env
        let (snapshot, world) := env.createSnapshot st.world
        { st with snapshot := some snapshot, world := world }
      else st
  | _, _ => st

/-- The body of the loop up to `DebugContinue`. -/
def loopBody (env : Environment W S L) (bps : Breakpoints) (st : FuzzState W S L) :
    Except NetException (FuzzState W S L) :=
  let st := reachSnapshot env bps st
  match st.snapshot, st.lastDebuggerStop with
  | none, _ => .ok st
  | some _, none => .error .nullReference
  | some snapshot, some stop =>
      if stop.stopReason = .breakpoint ∧ bps.restoreBreakpoint = stop.address then
        .ok (restoreAndFuzz env snapshot st)
      else if stop.stopReason ≠ .breakpoint then
        .ok (restoreAndFuzz env snapshot (st.logDebuggerStop stop))
      else .ok st

/-- `DebugContinue` returns. -/
def debugContinue (env : Environment W S L) (stop : DebuggerStop) (st : FuzzState W S L) :
    FuzzState W S L :=
  { st with lastDebuggerStop := some stop, world := env.debugContinue stop st.world }

/-- The loop: the state in which it has ended or waits in `DebugContinue`, and the stops
that its body has looked at. -/
def fuzzLoop (env : Environment W S L) (bps : Breakpoints) :
    List DebuggerStop → FuzzState W S L → Except NetException (FuzzState W S L × List DebuggerStop)
  | stops, st => do
      if st.fuzzLocation = [] then return (st, [])
      else
        let examined := st.lastDebuggerStop.toList
        let st ← loopBody env bps st
        match stops with
        | [] => return (st, examined)
        | stop :: rest =>
            let (st, later) ← fuzzLoop env bps rest (debugContinue env stop st)
            return (st, examined ++ later)

/-- The controller as its constructor without a snapshot leaves it; the connector may
have stopped before. -/
def initialState (logDestination : String) (fuzzLocation : List L)
    (lastDebuggerStop : Option DebuggerStop) (fs : FileSystem) (world : W) : FuzzState W S L where
  fuzzLocation := fuzzLocation
  snapshot := none
  lastDebuggerStop := lastDebuggerStop
  loggerPrefix := 0
  dataLogger := ⟨"", []⟩
  errorLog := ⟨logDestination, none, none⟩
  fs := fs
  world := world

/-- `Fuzz`. -/
def fuzz (env : Environment W S L) (bps : Breakpoints) (stops : List DebuggerStop)
    (st : FuzzState W S L) : Except NetException (FuzzState W S L × List DebuggerStop) :=
  fuzzLoop env bps stops st.incrementLoggerPrefix

end

end InMemoryFuzzing.Fuzz

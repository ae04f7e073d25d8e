import InMemoryFuzzing.Base.Objects
import InMemoryFuzzing.Fuzz.Location

/-!
# `PredefinedFuzzLocation`

Several wrappers over one base location. The base location is one object; its fields
refer to the stop condition, the data generator and the triggers of the wrapper that
was applied last. A changeable id is the position of the components in
`_changeableComponents`, which are compared by reference.

The other machine gives each wrapper a base location of its own.
-/

namespace InMemoryFuzzing.Fuzz

open Base Platform DotNet

variable {G : Type}

/-! ## The calls -/

/-- The calls on a location. The class of the location does something with its data
generator in `Run`, which may be different each time; `setLogger` is what a logger does
to a generator. -/
inductive LocationCall (G : Type)
  | isTriggered (trigger : TriggerEnum) (data : Option UInt64)
  | isFinished
  | nextFuzzRun
  | run (use : G → G)
  | setLogger (set : G → G)

/-- What is seen of a call: its answer, or the data generator it has used or configured. -/
inductive LocationAnswer (G : Type)
  | answered (b : Bool)
  | used (dataGenerator : Option G)
  | configured (dataGenerator : Option G)
  | done
  | raised
  deriving DecidableEq, Repr

/-- A call on a location of its own. -/
def BaseFuzzLocation.call (c : LocationCall G) (l : BaseFuzzLocation G) :
    LocationAnswer G × BaseFuzzLocation G :=
  match c with
  | .isTriggered trigger data =>
      let (triggered, l) := l.isTriggered trigger data
      (.answered triggered, l)
  | .isFinished => (.answered l.isFinished, l)
  | .nextFuzzRun => (.done, l.nextFuzzRun)
  | .run use =>
      let l := l.run
      (.used l.dataGenerator, { l with dataGenerator := l.dataGenerator.map use })
  | .setLogger set =>
      let l := l.setLogger set
      (.configured l.dataGenerator, l)

/-! ## The base location that is shared -/

/-- `ChangeableComponents`, as references to the objects. -/
structure ChangeableComponents where
  stopCondition : Option Nat
  dataGenerator : Option Nat
  triggers : Option (List Nat)
  isPreCondition : Bool

/-- The base location, and the objects that have been made for it. -/
structure SharedLocation (G : Type) where
  stopConditions : List CountFuzzStopCondition
  dataGenerators : List G
  triggers : List Trigger
  changeableComponents : List ChangeableComponents
  /-- `_stopCondition`, `_dataGenerator`, `_triggers` and `_isPreCondition`. -/
  fields : ChangeableComponents

namespace SharedLocation

/-- As `Init` leaves it. -/
def new : SharedLocation G := ⟨[], [], [], [], ⟨none, none, none, false⟩⟩

/-! ### `InitChanges` -/

def setStopCondition (stopCondition : Option CountFuzzStopCondition) (s : SharedLocation G) :
    SharedLocation G :=
  { s with
    stopConditions := s.stopConditions ++ stopCondition.toList
    fields := { s.fields with
      stopCondition := stopCondition.map fun _ => s.stopConditions.length } }

def setDataGenerator (dataGenerator : Option G) (s : SharedLocation G) : SharedLocation G :=
  { s with
    dataGenerators := s.dataGenerators ++ dataGenerator.toList
    fields := { s.fields with
      dataGenerator := dataGenerator.map fun _ => s.dataGenerators.length } }

def setTriggers (triggers : Option (List Trigger)) (s : SharedLocation G) : SharedLocation G :=
  { s with
    triggers := s.triggers ++ triggers.getD []
    fields := { s.fields with
      triggers := triggers.map fun triggers =>
        List.range' s.triggers.length triggers.length } }

/-- `InitChanges`: the changeable id, or nothing if it raises, which leaves the fields
that have been set by then. -/
def initChanges (supports : Supports) (parseRegionAddress : Option (List Char) → Option UInt64)
    (e : Element G) (s : SharedLocation G) : Option Nat × SharedLocation G :=
  let s := { s with fields := { s.fields with isPreCondition := e.isPreCondition } }
  match e.newStopCondition supports with
  | none => (none, s)
  | some stopCondition =>
      -- the field is set before the data generator is read, which may raise
      let s := s.setStopCondition stopCondition
      match e.newDataGenerator supports with
      | none => (none, s)
      | some dataGenerator =>
          let s := s.setDataGenerator dataGenerator
          match e.newTriggers supports parseRegionAddress with
          | none => (none, s)
          | some triggers =>
              let s := s.setTriggers triggers
              (some s.changeableComponents.length,
                { s with changeableComponents := s.changeableComponents ++ [s.fields] })

/-! ### The other calls -/

/-- `ApplyChangeableId`. -/
def applyChangeableId (changeableId : Option Nat) (s : SharedLocation G) :
    Except NetException (SharedLocation G) :=
  match changeableId with
  | none => .ok s
  | some id =>
      match s.changeableComponents[id]? with
      | some components => .ok { s with fields := components }
      | none => .error (.argument "Unexpected changeable id")

/-- The loop of `IsTriggered`. -/
def anyTriggered (trigger : TriggerEnum) (data : Option UInt64) :
    List Nat → List Trigger → Bool × List Trigger
  | [], triggers => (false, triggers)
  | r :: rest, triggers =>
      match triggers[r]? with
      | none => (false, triggers)
      | some t =>
          match t.isTriggered trigger data with
          -- the trigger is one object for all lists that refer to it
          | (true, t) => (true, triggers.set r t)
          | (false, t) => anyTriggered trigger data rest (triggers.set r t)

/-- A call on the object, whatever its fields refer to. -/
def call (c : LocationCall G) (s : SharedLocation G) : LocationAnswer G × SharedLocation G :=
  match c with
  | .isTriggered trigger data =>
      match s.fields.triggers with
      | none => (.answered false, s)
      | some refs =>
          let (triggered, triggers) := anyTriggered trigger data refs s.triggers
          (.answered triggered, { s with triggers := triggers })
  | .isFinished =>
      match s.fields.stopCondition.bind fun r => s.stopConditions[r]? with
      | none => (.answered false, s)
      | some stopCondition => (.answered stopCondition.finished, s)
  | .nextFuzzRun =>
      (.done, { s with
        triggers := modifyAll Trigger.nextFuzzRun (s.fields.triggers.getD []) s.triggers })
  | .run use =>
      (.used (s.fields.dataGenerator.bind fun r => s.dataGenerators[r]?), { s with
        stopConditions := modifyAll CountFuzzStopCondition.startFuzzRound
          s.fields.stopCondition.toList s.stopConditions
        triggers := modifyAll Trigger.nextFuzzRun (s.fields.triggers.getD []) s.triggers
        dataGenerators := modifyAll use s.fields.dataGenerator.toList s.dataGenerators })
  | .setLogger set =>
      let s := { s with
        dataGenerators := modifyAll set s.fields.dataGenerator.toList s.dataGenerators }
      (.configured (s.fields.dataGenerator.bind fun r => s.dataGenerators[r]?), s)

end SharedLocation

/-! ## The wrappers -/

/-- The shared location, and `_changeableId` of every wrapper. -/
structure PredefinedLocations (G : Type) where
  childLocation : SharedLocation G
  changeableIds : List (Option Nat)

/-- A new wrapper is initialised, or one of them is called. -/
inductive PredefinedInput (G : Type)
  | initChanges (e : Element G)
  | call (i : Nat) (c : LocationCall G)

namespace PredefinedLocations

/-- No wrapper yet. -/
def new : PredefinedLocations G := ⟨SharedLocation.new, []⟩

/-- `InitChanges` of a wrapper, and its calls: each applies the changeable id first. -/
def step (supports : Supports) (parseRegionAddress : Option (List Char) → Option UInt64) :
    Machine (PredefinedLocations G) (PredefinedInput G) (LocationAnswer G)
  | s, .initChanges e =>
      match s.childLocation.initChanges supports parseRegionAddress e with
      | (none, child) => (.raised, { s with childLocation := child })
      | (some id, child) => (.done, ⟨child, s.changeableIds ++ [some id]⟩)
  | s, .call i c =>
      match s.changeableIds[i]? with
      | none => (.raised, s)
      | some changeableId =>
          match s.childLocation.applyChangeableId changeableId with
          | .error _ => (.raised, s)
          | .ok child =>
              let (answer, child) := child.call c
              (answer, { s with childLocation := child })

end PredefinedLocations

/-- The same with a base location of its own for each. -/
def privateStep (supports : Supports) (parseRegionAddress : Option (List Char) → Option UInt64) :
    Machine (List (BaseFuzzLocation G)) (PredefinedInput G) (LocationAnswer G)
  | locations, .initChanges e =>
      match BaseFuzzLocation.initChanges supports parseRegionAddress e with
      | none => (.raised, locations)
      | some l => (.done, locations ++ [l])
  | locations, .call i c =>
      match locations[i]? with
      | none => (.raised, locations)
      | some l =>
          let (answer, l) := l.call c
          (answer, locations.set i l)

end InMemoryFuzzing.Fuzz

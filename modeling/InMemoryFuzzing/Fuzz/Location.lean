import InMemoryFuzzing.Fuzz.Controller
import InMemoryFuzzing.Platform.Enums

/-!
# `Trigger`, `CountFuzzStopCondition` and `BaseFuzzLocation`

The parts of a fuzz location that the description configures. The texts of the
description are lists of characters; where a constructor raises on its text, the
reader returns `none`. Counters are of type `int` and wrap.

A fuzz location of any class runs through `BaseFuzzLocation` first; what its
technique does then is not modelled here.
-/

namespace InMemoryFuzzing.Fuzz

open Base Platform DotNet

/-! ## Triggers -/

/-- `Trigger`. `data` is what the address specifier of a location trigger resolves
to. -/
structure Trigger where
  trigger : TriggerEnum
  triggerFirst : Bool
  triggerCount : Int
  data : Option UInt64
  currentCount : Int
  deriving DecidableEq, Repr

def TriggerEnum.ofValue : Int → TriggerEnum
  | 0 => .start
  | 1 => .end_
  | 2 => .location
  | value => .unnamed value

/-- `Enum.Parse`: also a number, or a list of names. -/
def TriggerEnum.parse (text : List Char) : Option TriggerEnum :=
  match enumParse [("Start", 0), ("End", 1), ("Location", 2)] text with
  | .ok value => some (.ofValue value)
  | .error _ => none

namespace Trigger

/-- The constructor; `parseRegionAddress` stands for that function with the
connector, and resolves the address. -/
def create (parseRegionAddress : Option (List Char) → Option UInt64) (trigger : List Char)
    (triggerArgs : Option (List Char)) : Option Trigger := do
  let trigger ← TriggerEnum.parse trigger
  if trigger = .location then
    let address ← parseRegionAddress triggerArgs
    return ⟨trigger, false, 0, some address, 0⟩
  else
    match triggerArgs with
    | some ('!' :: count) => return ⟨trigger, true, ← intTryParse count, none, 0⟩
    | some count => return ⟨trigger, false, ← intTryParse count, none, 0⟩
    | none => return ⟨trigger, false, 0, none, 0⟩

/-- `NextFuzzRun`. -/
def nextFuzzRun (t : Trigger) : Trigger :=
  let currentCount := castInt32 (t.currentCount + 1)
  -- the counter wraps to 1, not to 0
  { t with currentCount := if currentCount > t.triggerCount then 1 else currentCount }

/-- `IsTriggered`; the data is an address or null. -/
def isTriggered (t : Trigger) (trigger : TriggerEnum) (data : Option UInt64) : Bool × Trigger :=
  if t.triggerFirst ∧ trigger = t.trigger ∧ (trigger = .start ∨ trigger = .end_) then
    (true, { t with triggerFirst := false, currentCount := 0 })
  else if trigger = t.trigger ∧ (trigger = .start ∨ trigger = .end_) ∧
      (t.currentCount = t.triggerCount ∨ t.triggerCount = 0) then
    (true, t)
  else if trigger = t.trigger ∧ trigger = .location ∧ data.isSome then
    (t.data.isSome && t.data = data, t)
  else (false, t)

end Trigger

/-! ## Stop conditions -/

/-- `CountFuzzStopCondition`, the only stop condition. -/
structure CountFuzzStopCondition where
  maxRuns : Int
  current : Int
  deriving DecidableEq, Repr

namespace CountFuzzStopCondition

/-- `StartFuzzRound`. -/
def startFuzzRound (c : CountFuzzStopCondition) : CountFuzzStopCondition :=
  { c with current := castInt32 (c.current + 1) }

/-- `Finished`. -/
def finished (c : CountFuzzStopCondition) : Bool := c.current > c.maxRuns

end CountFuzzStopCondition

/-! ## Fuzz locations -/

/-- The fields of `BaseFuzzLocation` that `InitChanges` sets, with data generators of
type `G`. -/
structure BaseFuzzLocation (G : Type) where
  stopCondition : Option CountFuzzStopCondition
  dataGenerator : Option G
  triggers : Option (List Trigger)
  isPreCondition : Bool
  deriving DecidableEq, Repr

/-- `Split (new char[] { '|' }, 2)`: the first part, and the second if there is one. -/
def splitSpecifier (text : List Char) : List Char × Option (List Char) :=
  match cutAt '|' text with
  | some (key, value) => (key, some value)
  | none => (text, none)

/-- `ReadStopCondition`. -/
def readStopCondition (stopCondition : Option (List Char)) :
    Option (Option CountFuzzStopCondition) :=
  match stopCondition with
  | none => some none
  | some text =>
      if text = [] ∨ text = "none".toList then some none
      else
        match splitSpecifier text with
        | (key, some value) =>
            if toLower key = "count".toList then (intTryParse value).map fun n => some ⟨n, 0⟩
            else none
        | (_, none) => none

/-- `ReadTriggers`. -/
def readTriggers (parseRegionAddress : Option (List Char) → Option UInt64)
    (triggers : List (List Char)) : Option (List Trigger) :=
  triggers.mapM fun text =>
    Trigger.create parseRegionAddress (splitSpecifier text).1 (splitSpecifier text).2

/-- The abstract properties with which a class says what it expects in its element. -/
structure Supports where
  stopCondition : Bool
  dataGen : Bool
  trigger : Bool

/-- `InMemoryFuzzLocation` and `UnixSocketFuzzLocation`; `DelayFuzzHelper` expects
nothing. -/
def Supports.all : Supports := ⟨true, true, true⟩

/-- What `InitChanges` reads of an element: whether it is a pre condition, the text of the
stop condition, the data generator that `ReadDataGen` makes of it, if it can, and the texts
of the triggers. -/
structure Element (G : Type) where
  isPreCondition : Bool
  stopCondition : Option (List Char)
  dataGenerator : Option G
  triggers : List (List Char)

namespace Element

variable {G : Type} (supports : Supports) (e : Element G)

/-- The stop condition, for a class that expects one. -/
def newStopCondition : Option (Option CountFuzzStopCondition) :=
  if supports.stopCondition then readStopCondition e.stopCondition else some none

/-- The data generator, for a class that expects one. -/
def newDataGenerator : Option (Option G) :=
  if supports.dataGen then e.dataGenerator.map some else some none

/-- The triggers, for a class that expects them. -/
def newTriggers (parseRegionAddress : Option (List Char) → Option UInt64) :
    Option (Option (List Trigger)) :=
  if supports.trigger then (readTriggers parseRegionAddress e.triggers).map some else some none

end Element

namespace BaseFuzzLocation

variable {G : Type}

/-- `InitChanges`. -/
def initChanges (supports : Supports)
    (parseRegionAddress : Option (List Char) → Option UInt64) (e : Element G) :
    Option (BaseFuzzLocation G) := do
  let stopCondition ← e.newStopCondition supports
  let dataGenerator ← e.newDataGenerator supports
  let triggers ← e.newTriggers supports parseRegionAddress
  return ⟨stopCondition, dataGenerator, triggers, e.isPreCondition⟩

/-- `IsFinished`. -/
def isFinished (l : BaseFuzzLocation G) : Bool :=
  match l.stopCondition with
  | none => false
  | some stopCondition => stopCondition.finished

/-- The loop of `IsTriggered`: it ends at the first trigger that says so. -/
def anyTriggered (trigger : TriggerEnum) (data : Option UInt64) :
    List Trigger → Bool × List Trigger
  | [] => (false, [])
  | t :: rest =>
      match t.isTriggered trigger data with
      -- the triggers behind it are not asked
      | (true, t) => (true, t :: rest)
      | (false, t) =>
          let (triggered, rest) := anyTriggered trigger data rest
          (triggered, t :: rest)

/-- `IsTriggered`. -/
def isTriggered (l : BaseFuzzLocation G) (trigger : TriggerEnum) (data : Option UInt64) :
    Bool × BaseFuzzLocation G :=
  match l.triggers with
  | none => (false, l)
  | some triggers =>
      let (triggered, triggers) := anyTriggered trigger data triggers
      (triggered, { l with triggers := some triggers })

/-- `NextFuzzRun`. -/
def nextFuzzRun (l : BaseFuzzLocation G) : BaseFuzzLocation G :=
  { l with triggers := l.triggers.map fun triggers => triggers.map Trigger.nextFuzzRun }

/-- `Run`, as far as the base class goes. -/
def run (l : BaseFuzzLocation G) : BaseFuzzLocation G :=
  { l with
    stopCondition := l.stopCondition.map CountFuzzStopCondition.startFuzzRound
    triggers := l.triggers.map fun triggers => triggers.map Trigger.nextFuzzRun }

/-- `SetLogger` for the data generators; `set` stands for the call on the generator. -/
def setLogger (set : G → G) (l : BaseFuzzLocation G) : BaseFuzzLocation G :=
  { l with dataGenerator := l.dataGenerator.map set }

end BaseFuzzLocation

/-! ## What the texts are read as -/

/-- A number is read if it is an `int`. -/
theorem intTryParse_toDigits (n : Nat) :
    intTryParse (Nat.toDigits 10 n) = if n < 2 ^ 31 then some (n : Int) else none := by
  rw [intTryParse, parseInteger_toDigits, Option.filter_some]
  refine if_congr ?_ rfl rfl
  simp only [decide_eq_true_eq]
  omega

theorem splitSpecifier_start (args : List Char) :
    splitSpecifier ("start|".toList ++ args) = ("start".toList, some args) := by
  have happ : "start|".toList ++ args = "start".toList ++ '|' :: args := rfl
  have hsep : '|' ∉ "start".toList := by simp
  rw [splitSpecifier, happ, cutAt_append hsep]

theorem parse_start : TriggerEnum.parse "start".toList = some .start := rfl

theorem create_start (parseRegionAddress : Option (List Char) → Option UInt64) (n : Nat) :
    Trigger.create parseRegionAddress "start".toList (some (Nat.toDigits 10 n)) =
      if n < 2 ^ 31 then some ⟨.start, false, n, none, 0⟩ else none := by
  have hmark : '!' ∉ Nat.toDigits 10 n := not_mem_toDigits (by omega) (by omega) rfl
  unfold Trigger.create
  rw [parse_start]
  simp only [bind, Option.bind, reduceCtorEq, if_false]
  split
  · rename_i count heq
    rw [Option.some.injEq] at heq
    exact absurd (heq ▸ List.mem_cons_self) hmark
  · rename_i count _ heq
    rw [Option.some.injEq] at heq
    rw [← heq, intTryParse_toDigits]
    by_cases hn : n < 2 ^ 31
    · rw [if_pos hn, if_pos hn]
      rfl
    · rw [if_neg hn, if_neg hn]
  · rename_i heq
    cases heq

theorem create_startFirst (parseRegionAddress : Option (List Char) → Option UInt64) (n : Nat) :
    Trigger.create parseRegionAddress "start".toList (some ('!' :: Nat.toDigits 10 n)) =
      if n < 2 ^ 31 then some ⟨.start, true, n, none, 0⟩ else none := by
  unfold Trigger.create
  rw [parse_start]
  simp only [bind, Option.bind, reduceCtorEq, if_false]
  rw [intTryParse_toDigits]
  by_cases hn : n < 2 ^ 31
  · rw [if_pos hn, if_pos hn]
    rfl
  · rw [if_neg hn, if_neg hn]

/-- `start|n` or `start|!n`. -/
def periodTrigger (triggerFirst : Bool) (n : Nat) : List Char :=
  if triggerFirst then "start|!".toList ++ Nat.toDigits 10 n
  else "start|".toList ++ Nat.toDigits 10 n

theorem readTriggers_period (parseRegionAddress : Option (List Char) → Option UInt64)
    (triggerFirst : Bool) (n : Nat) :
    readTriggers parseRegionAddress [periodTrigger triggerFirst n] =
      if n < 2 ^ 31 then some [⟨.start, triggerFirst, n, none, 0⟩] else none := by
  have hcreate : Trigger.create parseRegionAddress
      (splitSpecifier (periodTrigger triggerFirst n)).1
      (splitSpecifier (periodTrigger triggerFirst n)).2 =
      if n < 2 ^ 31 then some ⟨.start, triggerFirst, n, none, 0⟩ else none := by
    cases triggerFirst with
    | false =>
        have htext : periodTrigger false n = "start|".toList ++ Nat.toDigits 10 n := rfl
        rw [htext, splitSpecifier_start]
        exact create_start parseRegionAddress n
    | true =>
        have htext : periodTrigger true n = "start|".toList ++ '!' :: Nat.toDigits 10 n := rfl
        rw [htext, splitSpecifier_start]
        exact create_startFirst parseRegionAddress n
  rw [readTriggers, List.mapM_cons, hcreate]
  split <;> rfl

/-- `count|n`. -/
def countCondition (n : Nat) : List Char := "count|".toList ++ Nat.toDigits 10 n

theorem readStopCondition_count (n : Nat) :
    readStopCondition (some (countCondition n)) =
      if n < 2 ^ 31 then some (some ⟨n, 0⟩) else none := by
  have hcut : splitSpecifier (countCondition n) = ("count".toList, some (Nat.toDigits 10 n)) := by
    have happ : countCondition n = "count".toList ++ '|' :: Nat.toDigits 10 n := rfl
    have hsep : '|' ∉ "count".toList := by simp
    rw [splitSpecifier, happ, cutAt_append hsep]
  have htext : ¬(countCondition n = [] ∨ countCondition n = "none".toList) := by
    rintro (h | h) <;> cases h
  rw [readStopCondition]
  simp only [if_neg htext, hcut]
  show (intTryParse _).map _ = _
  rw [intTryParse_toDigits]
  split <;> rfl

end InMemoryFuzzing.Fuzz

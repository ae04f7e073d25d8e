import InMemoryFuzzing.CoreDump.RecordSection

/-!
# `AnalyzeController`

`Setup` finds the highest number at the beginning of a file name of the log
directory, `Analyze` goes through the prefixes and calls the analyzers for those
that have an execution log. What an analyzer does with a call is its own affair,
but for an exception, which ends the loop.
-/

namespace InMemoryFuzzing.Analyzers

open Base Platform DotNet CoreDump

/-- The files of the log directory. -/
structure LogDirectory where
  files : List (String × List UInt8)
  nodup : (files.map Prod.fst).Nodup

namespace LogDirectory

/-- `Directory.GetFiles`, without the path. -/
def getFiles (dir : LogDirectory) : List String := dir.files.map Prod.fst

/-- `File.OpenRead`, if the file exists. -/
def openRead (dir : LogDirectory) (name : String) : Option Source := dir.files.lookup name

end LogDirectory

/-! ## `Setup` -/

/-- `int.TryParse` of what stands in front of the first dot. -/
def leadingNumber (file : String) : Option Int := intTryParse ((file.toList.splitOn '.').headD [])

/-- One file of the loop in `Setup`. -/
def raisePrefix (highest : Int) (file : String) : Int :=
  match leadingNumber file with
  | some number => if highest < number then number else highest
  | none => highest

/-- `_highestPrefix` behind `Setup`. -/
def highestPrefix (dir : LogDirectory) : Int := dir.getFiles.foldl raisePrefix 0

/-! ## `Analyze` -/

/-- The name of an execution log. -/
def execLog (runPrefix : Nat) : String := toString runPrefix ++ ".execlog"

/-- `ReadExecutionLog`: the instructions, if there is a log. -/
def readExecutionLog (targetRegisters : Registers) (dir : LogDirectory) (runPrefix : Nat) :
    Except NetException (Option (List InstructionDescription)) :=
  match dir.openRead (execLog runPrefix) with
  | some src => (readSection targetRegisters src).map some
  | none => .ok none

/-- A call of `Analyze` of an analyzer: its `Prefix`, and the instructions it finds in
the controller. -/
structure AnalyzerCall (α : Type) where
  analyzer : α
  runPrefix : String
  executedInstructions : List InstructionDescription

/-- How the call of an analyzer ends, behind the calls made before it: it returns, or raises. -/
abbrev AnalyzerOutcome (α : Type) := List (AnalyzerCall α) → AnalyzerCall α → Option NetException

/-- The calls made so far, and the exception that has ended the loop. -/
structure Analysis (α : Type) where
  calls : List (AnalyzerCall α)
  raised : Option NetException

section

variable {α : Type} (outcome : AnalyzerOutcome α)

/-- `Array.ForEach`: nobody catches what an analyzer raises. -/
def forEach (made : List (AnalyzerCall α)) : List (AnalyzerCall α) → Analysis α
  | [] => ⟨made, none⟩
  | call :: calls =>
      match outcome made call with
      | some raised => ⟨made ++ [call], some raised⟩
      | none => forEach (made ++ [call]) calls

variable (targetRegisters : Registers) (analyzers : List α) (dir : LogDirectory)

/-- The body of the loop in `Analyze`. -/
def analyzePrefix (made : List (AnalyzerCall α)) (runPrefix : Nat) : Analysis α :=
  match readExecutionLog targetRegisters dir runPrefix with
  | .error raised => ⟨made, some raised⟩
  | .ok none => ⟨made, none⟩
  | .ok (some insns) =>
      forEach outcome made (analyzers.map fun analyzer => ⟨analyzer, toString runPrefix, insns⟩)

/-- The loop in `Analyze`. -/
def analyzeFrom (made : List (AnalyzerCall α)) : List Nat → Analysis α
  | [] => ⟨made, none⟩
  | runPrefix :: prefixes =>
      let analysis := analyzePrefix outcome targetRegisters analyzers dir made runPrefix
      match analysis.raised with
      | some _ => analysis
      | none => analyzeFrom analysis.calls prefixes

/-- `Analyze`: the prefixes from 1 on that are below the highest one. -/
def analyze : Analysis α :=
  analyzeFrom outcome targetRegisters analyzers dir []
    (List.range' 1 ((highestPrefix dir).toNat - 1))

end

end InMemoryFuzzing.Analyzers

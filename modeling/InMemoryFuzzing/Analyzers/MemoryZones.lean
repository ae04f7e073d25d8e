import InMemoryFuzzing.Analyzers.HeapOverflow
import InMemoryFuzzing.Analyzers.SavedRegisters
import InMemoryFuzzing.Utils.StringHelper

/-!
# `MemoryZonesAnalyzer`

Memory changes that meet a red zone are reported, with the first zone that they meet. White
zones are read from the configuration, too, and passed over.
-/

namespace InMemoryFuzzing.Analyzers

open Base Platform DotNet Utils CoreDump

/-! ## Zones -/

inductive ZoneType
  | whiteZone
  | redZone
  deriving DecidableEq, Repr

structure MemoryZone where
  zone : ZoneType
  startAddress : UInt64
  endAddress : UInt64
  deriving DecidableEq, Repr

namespace MemoryZone

/-- The constructor with a specification, of which the exception has the text. -/
def ofSpecification (zone : ZoneType) (zoneSpecification : String) : Except NetException MemoryZone :=
  match cutAt ':' zoneSpecification.toList with
  | none => .error (.argument ("Invalid zone specification '" ++ zoneSpecification ++ "'"))
  | some (startText, endText) => do
      let startAddress ← stringToUInt64 startText
      let endAddress ← stringToUInt64 endText
      return ⟨zone, startAddress, endAddress⟩

/-- `ContainsAddress`. -/
def containsAddress (z : MemoryZone) (address : UInt64) : Bool :=
  address ≥ z.startAddress && address ≤ z.endAddress

/-- `IntersectsWith`, in 64-bit arithmetic. -/
def intersectsWith (z : MemoryZone) (address size : UInt64) : Bool :=
  let localEndAddress := address + size - 1
  (address ≤ z.startAddress && localEndAddress ≥ z.startAddress) ||
    (address ≥ z.startAddress && address ≤ z.endAddress)

end MemoryZone

/-- A pass through the loop of `Init`. -/
def configuredZone (val : String × String) : Except NetException (List MemoryZone) :=
  if equalsIgnoreCase val.1.toList "WhiteZone".toList then
    (MemoryZone.ofSpecification .whiteZone val.2).map fun z => [z]
  else if equalsIgnoreCase val.1.toList "RedZone".toList then
    (MemoryZone.ofSpecification .redZone val.2).map fun z => [z]
  else .ok []

/-- `Init`: the zones are added to those that are there. -/
def initZones (zones : List MemoryZone) (values : List (String × String)) :
    Except NetException (List MemoryZone) :=
  (collect configuredZone values).map fun configured => zones ++ configured

/-- A zone as it stands in a configuration file. -/
def MemoryZone.configValue (z : MemoryZone) : String × String :=
  (match z.zone with
    | .whiteZone => "WhiteZone"
    | .redZone => "RedZone",
    String.ofList (hexText z.startAddress ++ ':' :: hexText z.endAddress))

theorem MemoryZone.ofSpecification_configValue (zone : ZoneType) (z : MemoryZone) :
    ofSpecification zone z.configValue.2 = .ok ⟨zone, z.startAddress, z.endAddress⟩ := by
  have hcolon : ':' ∉ hexText z.startAddress := by
    have hdigits : ':' ∉ Nat.toDigits 16 z.startAddress.toNat :=
      not_mem_toDigits (by omega) (by omega) rfl
    simpa [hexText] using hdigits
  rw [ofSpecification]
  dsimp only [configValue]
  rw [String.toList_ofList, cutAt_append hcolon]
  dsimp only
  rw [stringToUInt64_hexText, stringToUInt64_hexText]
  rfl

/-- The zones of a configuration file are those that were put into it, in the same order. -/
theorem initZones_configValues (zones : List MemoryZone) :
    initZones [] (zones.map MemoryZone.configValue) = .ok zones := by
  have hzone : ∀ z : MemoryZone, configuredZone z.configValue = .ok [z] := by
    intro z
    have hspec := fun zone => MemoryZone.ofSpecification_configValue zone z
    obtain ⟨zone, startAddress, endAddress⟩ := z
    cases zone with
    | whiteZone =>
        rw [configuredZone, if_pos (by simp [equalsIgnoreCase, MemoryZone.configValue]), hspec]
        rfl
    | redZone =>
        have hother : ¬ equalsIgnoreCase "RedZone".toList "WhiteZone".toList := by decide
        rw [configuredZone, if_neg (by exact hother),
          if_pos (by simp [equalsIgnoreCase, MemoryZone.configValue]), hspec]
        rfl
  have hall : collect configuredZone (zones.map MemoryZone.configValue) = .ok zones := by
    rw [collect_map]
    induction zones with
    | nil => rfl
    | cons z zones ih =>
        rw [collect, hzone, ih]
        rfl
  rw [initZones, hall]
  rfl

/-! ## `Analyze` -/

/-- A `memory_zones` node; without a program counter `At` is empty. -/
structure MemoryZoneReport where
  zoneType : ZoneType
  zoneStart : UInt64
  zoneEnd : UInt64
  memStart : UInt64
  memEnd : UInt64
  at_ : Option UInt64
  deriving DecidableEq, Repr

/-- `Log`. -/
def logMemoryZone (target : Target) (memZone : MemoryZone) (memStart memEnd : UInt64)
    (insn : InstructionDescription) : Except NetException MemoryZoneReport :=
  (findProgramCounter insn target).map fun pc =>
    ⟨memZone.zone, memZone.startAddress, memZone.endAddress, memStart, memEnd, pc⟩

/-- The loop over the zones, which ends with the first report. -/
def zoneLoop (target : Target) (insn : InstructionDescription) (memChange : MemoryChange) :
    List MemoryZone → Except NetException (List MemoryZoneReport)
  | [] => .ok []
  | memZone :: zones =>
      if memZone.intersectsWith memChange.address (UInt64.ofNat memChange.value.length) ∧
          memZone.zone = .redZone then
        (logMemoryZone target memZone memChange.address (lastByte memChange) insn).map
          fun report => [report]
      else zoneLoop target insn memChange zones

/-- `Analyze`. -/
def analyzeMemoryZones (target : Target) (zones : List MemoryZone)
    (executedInstructions : List InstructionDescription) :
    Except NetException (List MemoryZoneReport) :=
  collect (fun insn => collect (fun memChange => zoneLoop target insn memChange zones)
    insn.memoryChanges) executedInstructions

end InMemoryFuzzing.Analyzers

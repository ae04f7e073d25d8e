import InMemoryFuzzing.Analyzers.MemoryZones
import InMemoryFuzzing.Analyzers.Theorems.SavedRegisters
import Mathlib.Data.List.Forall2

/-!
# Which memory changes are reported

The test of `IntersectsWith` looks at the start of the zone and at the start of the change; for
a change that does not wrap around it says that the two have an address in common
(`intersectsWith_iff`). `red_zones_reported_iff` says when the reports are those of the changes
that meet a red zone: the program counter has to be known where there is something to report.
-/

namespace InMemoryFuzzing.Analyzers

open Base Platform DotNet Utils CoreDump

/-! ## Meeting a zone -/

/-- A change of at least one byte that ends in front of `2^64`. -/
def ProperChange (memChange : MemoryChange) : Prop :=
  memChange.value ≠ [] ∧ memChange.address.toNat + memChange.value.length ≤ 2 ^ 64

/-- The zone and the interval from the first to the last address of the change meet. -/
def MemoryZone.Meets (z : MemoryZone) (memChange : MemoryChange) : Prop :=
  z.startAddress.toNat ≤ memChange.address.toNat + memChange.value.length - 1 ∧
    memChange.address.toNat ≤ z.endAddress.toNat

instance (z : MemoryZone) (memChange : MemoryChange) : Decidable (z.Meets memChange) :=
  inferInstanceAs (Decidable (_ ∧ _))

theorem ProperChange.lastByte_toNat {memChange : MemoryChange} (h : ProperChange memChange) :
    (lastByte memChange).toNat = memChange.address.toNat + memChange.value.length - 1 := by
  obtain ⟨hne, hle⟩ := h
  have hpos : 0 < memChange.value.length := List.length_pos_iff.mpr hne
  have hlt : memChange.address.toNat < 2 ^ 64 := memChange.address.toNat_lt
  have hone : (1 : UInt64).toNat = 1 := rfl
  rw [lastByte, UInt64.toNat_sub, UInt64.toNat_add, UInt64.toNat_ofNat', hone]
  omega

/-- An address of the change lies in the zone. -/
theorem MemoryZone.meets_iff_containsAddress {z : MemoryZone} {memChange : MemoryChange}
    (hzone : z.startAddress ≤ z.endAddress) (h : ProperChange memChange) :
    z.Meets memChange ↔ ∃ address, z.containsAddress address ∧ memChange.address ≤ address ∧
      address ≤ lastByte memChange := by
  have hlast := h.lastByte_toNat
  have hpos : 0 < memChange.value.length := List.length_pos_iff.mpr h.1
  rw [UInt64.le_iff_toNat_le] at hzone
  simp only [Meets, containsAddress, Bool.and_eq_true, decide_eq_true_eq, ge_iff_le,
    UInt64.le_iff_toNat_le, hlast]
  constructor
  · rintro ⟨hstart, hend⟩
    -- the later one of the two starts
    by_cases hle : z.startAddress.toNat ≤ memChange.address.toNat
    · exact ⟨memChange.address, ⟨hle, hend⟩, le_refl _, by omega⟩
    · exact ⟨z.startAddress, ⟨le_refl _, hzone⟩, by omega, hstart⟩
  · rintro ⟨address, ⟨hstart, hend⟩, hfirst, hlast⟩
    exact ⟨hstart.trans hlast, hfirst.trans hend⟩

/-- What `IntersectsWith` tests. -/
theorem MemoryZone.intersectsWith_iff {z : MemoryZone} {memChange : MemoryChange}
    (hzone : z.startAddress ≤ z.endAddress) (h : ProperChange memChange) :
    z.intersectsWith memChange.address (UInt64.ofNat memChange.value.length) = true ↔
      z.Meets memChange := by
  have hlast : (memChange.address + UInt64.ofNat memChange.value.length - 1).toNat =
      memChange.address.toNat + memChange.value.length - 1 := h.lastByte_toNat
  have hpos : 0 < memChange.value.length := List.length_pos_iff.mpr h.1
  rw [UInt64.le_iff_toNat_le] at hzone
  simp only [intersectsWith, Meets, Bool.or_eq_true, Bool.and_eq_true, decide_eq_true_eq, ge_iff_le,
    UInt64.le_iff_toNat_le, hlast]
  omega

/-! ## Reports -/

/-- A change that is to be reported, and the zone to be named. -/
structure RedHit where
  insn : InstructionDescription
  memChange : MemoryChange
  memZone : MemoryZone

/-- The first red zone that a change meets. -/
def firstRedZone (zones : List MemoryZone) (memChange : MemoryChange) : Option MemoryZone :=
  zones.find? fun z => z.zone = .redZone ∧ z.Meets memChange

/-- The changes that meet a red zone, in their order. -/
def redHits (zones : List MemoryZone) (executedInstructions : List InstructionDescription) :
    List RedHit :=
  executedInstructions.flatMap fun insn => insn.memoryChanges.filterMap fun memChange =>
    (firstRedZone zones memChange).map (RedHit.mk insn memChange)

/-- What the report of a change says. -/
structure RedHit.Reported (hit : RedHit) (target : Target) (report : MemoryZoneReport) : Prop where
  zone : report.zoneType = .redZone ∧ report.zoneStart = hit.memZone.startAddress ∧
    report.zoneEnd = hit.memZone.endAddress
  change : report.memStart = hit.memChange.address ∧
    report.memEnd.toNat = hit.memChange.address.toNat + hit.memChange.value.length - 1
  programCounter : findProgramCounter hit.insn target = .ok report.at_

/-- With these zones in the configuration `Init` and `Analyze` return, with one report for each
change that meets a red zone and no other. -/
def RedZonesReported (target : Target) (zones : List MemoryZone)
    (executedInstructions : List InstructionDescription) : Prop :=
  ∃ configured reports, initZones [] (zones.map MemoryZone.configValue) = .ok configured ∧
    analyzeMemoryZones target configured executedInstructions = .ok reports ∧
    List.Forall₂ (fun hit report => hit.Reported target report)
      (redHits zones executedInstructions) reports

/-- The call of `Log` for a change. -/
def RedHit.log (hit : RedHit) (target : Target) : Except NetException MemoryZoneReport :=
  logMemoryZone target hit.memZone hit.memChange.address (lastByte hit.memChange) hit.insn

theorem mem_redHits {zones : List MemoryZone} {insns : List InstructionDescription} {hit : RedHit}
    (h : hit ∈ redHits zones insns) : hit.insn ∈ insns ∧
      hit.memChange ∈ hit.insn.memoryChanges ∧ hit.memZone.zone = .redZone := by
  obtain ⟨insn, hinsn, hhit⟩ := List.mem_flatMap.mp h
  obtain ⟨memChange, hchange, hhit⟩ := List.mem_filterMap.mp hhit
  obtain ⟨z, hz, rfl⟩ := Option.map_eq_some_iff.mp hhit
  have hred := List.find?_some hz
  rw [decide_eq_true_eq] at hred
  exact ⟨hinsn, hchange, hred.1⟩

theorem RedHit.log_ok_iff (hit : RedHit) (target : Target) :
    (∃ report, hit.log target = .ok report) ↔ PcKnown target hit.insn := by
  rw [← findProgramCounter_ok_iff, log, logMemoryZone]
  cases findProgramCounter hit.insn target with
  | ok pc => exact ⟨fun _ => ⟨pc, rfl⟩, fun _ => ⟨_, rfl⟩⟩
  | error e =>
      constructor
      · rintro ⟨report, hreport⟩
        cases hreport
      · rintro ⟨pc, hpc⟩
        cases hpc

theorem RedHit.reported_of_log {hit : RedHit} {target : Target} {report : MemoryZoneReport}
    (hred : hit.memZone.zone = .redZone) (hproper : ProperChange hit.memChange)
    (h : hit.log target = .ok report) : hit.Reported target report := by
  rw [log, logMemoryZone] at h
  cases hpc : findProgramCounter hit.insn target with
  | error e =>
      rw [hpc] at h
      cases h
  | ok pc =>
      rw [hpc] at h
      obtain rfl := Except.ok.inj h
      exact ⟨⟨hred, rfl, rfl⟩, ⟨rfl, hproper.lastByte_toNat⟩, hpc⟩

section

variable {target : Target} {zones : List MemoryZone}
variable (hzones : ∀ z ∈ zones, z.startAddress ≤ z.endAddress)

include hzones

/-- The loop ends at the first red zone that the change meets. -/
theorem zoneLoop_eq (insn : InstructionDescription) {memChange : MemoryChange}
    (h : ProperChange memChange) :
    zoneLoop target insn memChange zones =
      ((firstRedZone zones memChange).map (RedHit.mk insn memChange)).elim (.ok []) fun hit =>
        (hit.log target).map fun report => [report] := by
  induction zones with
  | nil => rfl
  | cons z zones ih =>
      rw [List.forall_mem_cons] at hzones
      have hmeets := MemoryZone.intersectsWith_iff hzones.1 h
      rw [zoneLoop, firstRedZone]
      by_cases hhit : z.zone = .redZone ∧ z.Meets memChange
      · rw [if_pos ⟨hmeets.mpr hhit.2, hhit.1⟩, List.find?_cons_of_pos (by simpa using hhit)]
        rfl
      · rw [if_neg fun hz => hhit ⟨hz.2, hmeets.mp hz.1⟩,
          List.find?_cons_of_neg (by simpa using hhit)]
        exact ih hzones.2

/-- The nested loops are one loop over the changes that meet a red zone. -/
theorem analyzeMemoryZones_ok_iff {insns : List InstructionDescription}
    (hchanges : ∀ insn ∈ insns, ∀ memChange ∈ insn.memoryChanges, ProperChange memChange)
    {reports : List MemoryZoneReport} :
    analyzeMemoryZones target zones insns = .ok reports ↔
      (redHits zones insns).map (fun hit => hit.log target) = reports.map .ok := by
  have hselect := @collect_select_iff _ _ _ (fun _ : RedHit => True) _ (fun hit => hit.log target)
    (redHits zones insns) reports
  simp only [if_true, decide_true, List.filter_true] at hselect
  rw [← hselect, redHits, collect_flatMap]
  refine Eq.congr_left (collect_congr fun insn hinsn => ?_)
  rw [collect_filterMap]
  exact collect_congr fun memChange hchange =>
    zoneLoop_eq hzones insn (hchanges insn hinsn memChange hchange)

/-- **Red zones.** Every change that meets a red zone is reported once, in order, with the first
such zone, if and only if the program counter is known where there is something to report. -/
theorem red_zones_reported_iff {insns : List InstructionDescription}
    (hchanges : ∀ insn ∈ insns, ∀ memChange ∈ insn.memoryChanges, ProperChange memChange) :
    RedZonesReported target zones insns ↔
      ∀ hit ∈ redHits zones insns, PcKnown target hit.insn := by
  constructor
  · rintro ⟨configured, reports, hinit, hreports, -⟩ hit hhit
    cases (initZones_configValues zones).symm.trans hinit
    rw [analyzeMemoryZones_ok_iff hzones hchanges] at hreports
    have hlog : hit.log target ∈ reports.map Except.ok := by
      rw [← hreports]
      exact List.mem_map.mpr ⟨hit, hhit, rfl⟩
    obtain ⟨report, -, hreport⟩ := List.mem_map.mp hlog
    exact (hit.log_ok_iff target).mp ⟨report, hreport.symm⟩
  · intro hknown
    obtain ⟨reports, hreports⟩ :=
      exists_map_ok fun hit hhit => (RedHit.log_ok_iff hit target).mpr (hknown hit hhit)
    refine ⟨zones, reports, initZones_configValues zones,
      (analyzeMemoryZones_ok_iff hzones hchanges).mpr hreports, ?_⟩
    have hpairs : List.Forall₂ (fun hit report => hit.log target = .ok report)
        (redHits zones insns) reports := by
      rw [← List.forall₂_eq_eq_eq, List.forall₂_map_left_iff, List.forall₂_map_right_iff] at hreports
      exact hreports
    have hproper : ∀ hit ∈ redHits zones insns,
        hit.memZone.zone = .redZone ∧ ProperChange hit.memChange := by
      intro hit hhit
      obtain ⟨hinsn, hchange, hred⟩ := mem_redHits hhit
      exact ⟨hred, hchanges _ hinsn _ hchange⟩
    refine List.Forall₂.imp ?_ ((List.forall₂_and_left _ _).mpr ⟨hproper, hpairs⟩)
    rintro hit report ⟨⟨hred, hchange⟩, hlog⟩
    exact RedHit.reported_of_log hred hchange hlog

end

/-- A white zone inside a red one, as in the configurations of the tests. -/
def sampleZones : List MemoryZone :=
  [⟨.whiteZone, 0x602010, 0x60201F⟩, ⟨.redZone, 0x600000, 0x700000⟩]

/-- A write of two bytes into both zones by an instruction that changes a register. -/
def sampleInsn : InstructionDescription :=
  { registerChanges := [⟨8, [0x00, 0x04, 0x40, 0x00]⟩], memoryChanges := [⟨0x602010, [0x41, 0x41]⟩] }

theorem sampleInsn_proper : ∀ insn ∈ [sampleInsn], ∀ memChange ∈ insn.memoryChanges,
    ProperChange memChange := by
  simp [sampleInsn, ProperChange]

theorem sampleZones_ordered : ∀ z ∈ sampleZones, z.startAddress ≤ z.endAddress := by
  simp [sampleZones]

/-- The register table has the program counter. -/
theorem red_zones_reported_rip :
    RedZonesReported ⟨registerTypeResolverX86_64, [⟨16, "rip", 8⟩]⟩ sampleZones [sampleInsn] := by
  refine (red_zones_reported_iff sampleZones_ordered sampleInsn_proper).mpr fun hit hhit => ?_
  exact .inr ⟨⟨16, "rip", 8⟩, rfl⟩

/-- The same table without the register that the resolver names: `pcReg` is null in
`FindProgramCounter`. -/
theorem red_zone_not_reported :
    ¬ RedZonesReported ⟨registerTypeResolverX86, [⟨16, "rip", 8⟩]⟩ sampleZones [sampleInsn] := by
  rintro ⟨configured, reports, hinit, hreports, -⟩
  cases (initZones_configValues sampleZones).symm.trans hinit
  cases hreports

end InMemoryFuzzing.Analyzers

import InMemoryFuzzing.Analyzers.SavedRegisters

/-!
# How often an overwritten register is reported

Where nothing wraps around, the test of `SavedRegistersInRange` says that the two
intervals meet (`inRange_iff`). The instructions are gone through once for every
saved register, and each time every overwrite is reported
(`analyzeSavedRegisters_eq`). `reported_once_iff` says when the reports are the
overwrites, each of them once.
-/

namespace InMemoryFuzzing.Analyzers

open Base Platform DotNet Utils CoreDump

/-! ## Overwrites -/

/-- A memory change of an instruction, and a saved register whose address is known. -/
structure Overwrite where
  insn : InstructionDescription
  memChange : MemoryChange
  name : String
  address : UInt64

/-- All triples of an instruction, a memory change of it and a saved register. -/
def overwrites (info : StackFrameInfo) (executedInstructions : List InstructionDescription) :
    List Overwrite :=
  executedInstructions.flatMap fun insn => insn.memoryChanges.flatMap fun memChange =>
    info.savedRegisters.filterMap fun p => p.2.map (Overwrite.mk insn memChange p.1)

/-- The size of the saved register. -/
def Overwrite.regSize (o : Overwrite) (target : Target) : Nat :=
  ((findRegisterByName target.targetRegisters o.name).map fun reg => reg.size.toNat).getD 0

/-- The register and the change have a byte in common. -/
def Overwrite.Overlaps (o : Overwrite) (target : Target) : Prop :=
  max o.address.toNat o.memChange.address.toNat <
    min (o.address.toNat + o.regSize target)
      (o.memChange.address.toNat + o.memChange.value.length)

/-- The register begins in front of the end of the change and ends behind its
beginning. -/
def Overwrite.Touches (o : Overwrite) (target : Target) : Prop :=
  o.address.toNat < o.memChange.address.toNat + o.memChange.value.length ∧
    o.memChange.address.toNat < o.address.toNat + o.regSize target

instance (o : Overwrite) (target : Target) : Decidable (o.Overlaps target) :=
  inferInstanceAs (Decidable (_ < _))

instance (o : Overwrite) (target : Target) : Decidable (o.Touches target) :=
  inferInstanceAs (Decidable (_ ∧ _))

theorem Overwrite.overlaps_iff_common_byte (o : Overwrite) (target : Target) :
    o.Overlaps target ↔ ∃ b, (o.address.toNat ≤ b ∧ b < o.address.toNat + o.regSize target) ∧
      o.memChange.address.toNat ≤ b ∧
      b < o.memChange.address.toNat + o.memChange.value.length := by
  rw [Overwrite.Overlaps]
  constructor
  · intro h
    refine ⟨max o.address.toNat o.memChange.address.toNat, ?_⟩
    omega
  · rintro ⟨b, hreg, hchange⟩
    omega

/-- Only a register of size 0 is touched by a change and has no byte in common
with it. -/
theorem Overwrite.overlaps_iff {o : Overwrite} {target : Target} (hne : o.memChange.value ≠ []) :
    o.Overlaps target ↔ o.Touches target ∧ o.regSize target ≠ 0 := by
  have hpos : 0 < o.memChange.value.length := List.length_pos_iff.mpr hne
  rw [Overwrite.Overlaps, Overwrite.Touches]
  omega

/-- The register is in the table and neither interval wraps around. -/
structure Overwrite.Proper (o : Overwrite) (target : Target) : Prop where
  known : ∃ reg, findRegisterByName target.targetRegisters o.name = some reg
  register_end : o.address.toNat + o.regSize target < 2 ^ 64
  change_end : o.memChange.address.toNat + o.memChange.value.length < 2 ^ 64
  change_ne : o.memChange.value ≠ []

/-- The three-part test says that the intervals touch. -/
theorem inRange_iff {r s a n : UInt64} (hreg : r.toNat + s.toNat < 2 ^ 64)
    (hchange : a.toNat + n.toNat < 2 ^ 64) :
    inRange r s a n ↔ r.toNat < a.toNat + n.toNat ∧ a.toNat < r.toNat + s.toNat := by
  simp only [inRange, gt_iff_lt, ge_iff_le, UInt64.lt_iff_toNat_lt, UInt64.le_iff_toNat_le,
    UInt64.toNat_add, Nat.mod_eq_of_lt hreg, Nat.mod_eq_of_lt hchange]
  omega

/-! ## The loops -/

/-- `LogSavedRegister`, for an overwrite. -/
def Overwrite.log (o : Overwrite) (target : Target) : Except NetException SavedRegisterReport :=
  logSavedRegister target o.insn o.memChange o.name o.address

/-- An entry of a dictionary is what is found under its key. -/
theorem lookup_of_mem {α : Type} {l : List (String × α)} {key : String} {value : α}
    (hnodup : (l.map Prod.fst).Nodup) (h : (key, value) ∈ l) : l.lookup key = some value := by
  induction l with
  | nil => cases h
  | cons p l ih =>
      obtain ⟨other, value'⟩ := p
      rw [List.map_cons, List.nodup_cons] at hnodup
      rcases List.mem_cons.mp h with heq | hmem
      · cases heq
        exact List.lookup_cons_self
      · have hne : key ≠ other := by
          rintro rfl
          exact hnodup.1 (List.mem_map.mpr ⟨(key, value), hmem, rfl⟩)
        rw [List.lookup_cons, beq_false_of_ne hne]
        exact ih hnodup.2 hmem

theorem getSavedRegisterAddress_eq {info : StackFrameInfo} {name : String}
    {address : Option UInt64} (h : (name, address) ∈ info.savedRegisters) :
    info.getSavedRegisterAddress name = .ok address := by
  rw [StackFrameInfo.getSavedRegisterAddress, lookup_of_mem info.nodup h]

/-- What one saved register yields for one memory change. -/
theorem checkRegister_eq {target : Target} {info : StackFrameInfo} {insn : InstructionDescription}
    {memChange : MemoryChange} {name : String} {address : UInt64}
    (hmem : (name, some address) ∈ info.savedRegisters)
    (hproper : (Overwrite.mk insn memChange name address).Proper target) :
    checkRegister target info insn memChange name =
      if (Overwrite.mk insn memChange name address).Touches target then
        ((Overwrite.mk insn memChange name address).log target).map fun report => [report]
      else .ok [] := by
  obtain ⟨⟨reg, hreg⟩, hregEnd, hchangeEnd, -⟩ := hproper
  have hsize : (Overwrite.mk insn memChange name address).regSize target =
      reg.size.toUInt64.toNat := by
    rw [Overwrite.regSize, hreg]
    simp
  have hlength : (UInt64.ofNat memChange.value.length).toNat = memChange.value.length := by
    rw [UInt64.toNat_ofNat']
    dsimp only at hchangeEnd
    omega
  have htest : inRange address reg.size.toUInt64 memChange.address
      (UInt64.ofNat memChange.value.length) ↔
        (Overwrite.mk insn memChange name address).Touches target := by
    rw [inRange_iff (by rwa [← hsize]) (by rwa [hlength]), Overwrite.Touches, hsize, hlength]
  simp only [checkRegister, getSavedRegisterAddress_eq hmem, bind, Except.bind, hreg]
  by_cases htouches : (Overwrite.mk insn memChange name address).Touches target
  · rw [if_pos htouches, if_pos (htest.mpr htouches), Overwrite.log]
  · rw [if_neg htouches, if_neg (mt htest.mp htouches)]
    rfl

/-- The instruction loops go through the overwrites and report those that touch. -/
theorem instructionLoop_eq {target : Target} {info : StackFrameInfo}
    {insns : List InstructionDescription} (hproper : ∀ o ∈ overwrites info insns, o.Proper target) :
    instructionLoop target info insns =
      collect (fun o => if o.Touches target then (o.log target).map fun report => [report]
        else .ok []) (overwrites info insns) := by
  rw [instructionLoop, overwrites, collect_flatMap]
  refine collect_congr fun insn hinsn => ?_
  rw [collect_flatMap]
  refine collect_congr fun memChange hchange => ?_
  rw [savedRegistersInRange, collect_map, collect_filterMap]
  refine collect_congr fun p hp => ?_
  obtain ⟨name, address⟩ := p
  cases address with
  | none => simp only [checkRegister, getSavedRegisterAddress_eq hp]; rfl
  | some address =>
      refine checkRegister_eq hp (hproper _ ?_)
      refine List.mem_flatMap.mpr ⟨insn, hinsn, List.mem_flatMap.mpr ⟨memChange, hchange, ?_⟩⟩
      exact List.mem_filterMap.mpr ⟨(name, some address), hp, rfl⟩

/-! ## Each overwrite once -/

/-- The overwrites that are to be reported. -/
def overlapping (target : Target) (info : StackFrameInfo)
    (insns : List InstructionDescription) : List Overwrite :=
  (overwrites info insns).filter fun o => o.Overlaps target

/-- The reports are those of the overlapping triples, one for each, in some order. -/
def ReportedOnce (target : Target) (info : StackFrameInfo)
    (insns : List InstructionDescription) : Prop :=
  ∃ reports, analyzeSavedRegisters target (some info) insns = .ok reports ∧
    (reports.map Except.ok).Perm ((overlapping target info insns).map fun o => o.log target)

/-- `FindProgramCounter` needs the program counter in the register table as soon as
the instruction changes a register. -/
def PcKnown (target : Target) (insn : InstructionDescription) : Prop :=
  insn.registerChanges = [] ∨ ∃ reg, target.pcReg = some reg

theorem findChange_some (reg : Register) (changes : List RegisterChange) :
    ∃ pc, findChange (some reg) changes = .ok pc := by
  induction changes with
  | nil => exact ⟨none, rfl⟩
  | cons c rest ih =>
      rw [findChange]
      by_cases hnum : c.regnum = reg.num
      · -- the whole value is read, which is never too long
        have hread : ∃ v, byteArrayToUInt64 c.value 0 c.value.length true = .ok v :=
          ⟨_, if_neg (by omega)⟩
        obtain ⟨v, hv⟩ := hread
        simp only [if_pos hnum, hv]
        exact ⟨some v, rfl⟩
      · simp only [if_neg hnum]
        exact ih

/-- The search returns, with an address or without one, exactly then. -/
theorem findProgramCounter_ok_iff (target : Target) (insn : InstructionDescription) :
    (∃ pc, findProgramCounter insn target = .ok pc) ↔ PcKnown target insn := by
  rw [findProgramCounter, PcKnown]
  cases hpc : target.pcReg with
  | some reg => exact ⟨fun _ => .inr ⟨reg, rfl⟩, fun _ => findChange_some reg insn.registerChanges⟩
  | none =>
      cases insn.registerChanges with
      | nil => exact ⟨fun _ => .inl rfl, fun _ => ⟨none, rfl⟩⟩
      | cons c rest =>
          constructor
          · rintro ⟨pc, hchange⟩
            cases hchange
          · rintro (h | ⟨reg, h⟩) <;> cases h

theorem log_ok_iff (target : Target) (o : Overwrite) :
    (∃ report, o.log target = .ok report) ↔ PcKnown target o.insn := by
  rw [← findProgramCounter_ok_iff, Overwrite.log, logSavedRegister]
  cases findProgramCounter o.insn target with
  | ok pc => exact ⟨fun _ => ⟨pc, rfl⟩, fun _ => ⟨_, rfl⟩⟩
  | error e =>
      constructor
      · rintro ⟨report, hreport⟩
        cases hreport
      · rintro ⟨pc, hpc⟩
        cases hpc

/-- The overwrites that the analyzer reports in one pass. -/
def touching (target : Target) (info : StackFrameInfo)
    (insns : List InstructionDescription) : List Overwrite :=
  (overwrites info insns).filter fun o => o.Touches target

theorem mem_touching {target : Target} {info : StackFrameInfo}
    {insns : List InstructionDescription} {o : Overwrite} :
    o ∈ touching target info insns ↔ o ∈ overwrites info insns ∧ o.Touches target := by
  rw [touching, List.mem_filter, decide_eq_true_eq]

section

variable {target : Target} {info : StackFrameInfo} {insns : List InstructionDescription}
variable (hproper : ∀ o ∈ overwrites info insns, o.Proper target)

include hproper

/-- One pass over the instructions reports what touches. -/
theorem instructionLoop_ok_iff {r : List SavedRegisterReport} :
    instructionLoop target info insns = .ok r ↔
      (touching target info insns).map (fun o => o.log target) = r.map .ok := by
  rw [instructionLoop_eq hproper, collect_select_iff, touching]

/-- Every overwrite that overlaps touches. -/
theorem overlapping_eq :
    overlapping target info insns =
      (touching target info insns).filter fun o => o.Overlaps target := by
  rw [overlapping, touching, List.filter_filter]
  refine List.filter_congr fun o ho => ?_
  have hiff := @Overwrite.overlaps_iff o target (hproper o ho).change_ne
  by_cases h : o.Overlaps target
  · simp [h, (hiff.mp h).1]
  · simp [h]

/-- There are as many passes as saved registers. -/
theorem analyzeSavedRegisters_ok {r : List SavedRegisterReport}
    (hr : (touching target info insns).map (fun o => o.log target) = r.map .ok) :
    analyzeSavedRegisters target (some info) insns =
      .ok (List.replicate info.savedRegisters.length r).flatten := by
  rw [analyzeSavedRegisters, (instructionLoop_ok_iff hproper).mpr hr, collect_const,
    List.length_map]

/-- If the analyzer returns, then so did the call of `LogSavedRegister` for everything
that touches. -/
theorem exists_touching_reports {reports : List SavedRegisterReport}
    (hne : info.savedRegisters ≠ [])
    (h : analyzeSavedRegisters target (some info) insns = .ok reports) :
    ∃ r : List SavedRegisterReport,
      (touching target info insns).map (fun o => o.log target) = r.map .ok := by
  obtain ⟨r, hr⟩ := collect_const_ok (by simpa using hne) h
  exact ⟨r, (instructionLoop_ok_iff hproper).mp hr⟩

/-- Each pass counts, and only what overlaps may be counted. -/
theorem ReportedOnce.length_eq {r : List SavedRegisterReport} (h : ReportedOnce target info insns)
    (hr : (touching target info insns).map (fun o => o.log target) = r.map .ok) :
    info.savedRegisters.length * (touching target info insns).length =
      (overlapping target info insns).length := by
  obtain ⟨reports, hreports, hperm⟩ := h
  rw [analyzeSavedRegisters_ok hproper hr, Except.ok.injEq] at hreports
  have hreportsLength := hperm.length_eq
  have hpassLength := congrArg List.length hr
  rw [List.length_map, List.length_map] at hreportsLength hpassLength
  rw [← hreportsLength, ← hreports, hpassLength]
  simp

theorem reportedOnce_of_nothing (hnone : touching target info insns = []) :
    ReportedOnce target info insns := by
  have hr : (touching target info insns).map (fun o => o.log target) =
      ([] : List SavedRegisterReport).map .ok := by
    rw [hnone]
    rfl
  refine ⟨_, analyzeSavedRegisters_ok hproper hr, ?_⟩
  rw [overlapping_eq hproper, hnone]
  simp

theorem reportedOnce_of_one (hone : info.savedRegisters.length = 1)
    (hall : ∀ o ∈ touching target info insns, o.Overlaps target ∧ PcKnown target o.insn) :
    ReportedOnce target info insns := by
  have hlog : ∀ o ∈ touching target info insns, ∃ report, o.log target = .ok report :=
    fun o ho => (log_ok_iff target o).mpr (hall o ho).2
  obtain ⟨r, hr⟩ := exists_map_ok hlog
  have hself : overlapping target info insns = touching target info insns := by
    rw [overlapping_eq hproper, List.filter_eq_self]
    intro o ho
    rw [decide_eq_true_eq]
    exact (hall o ho).1
  refine ⟨_, analyzeSavedRegisters_ok hproper hr, ?_⟩
  rw [hself, hr, hone]
  simp

end

/-- Every overwrite is reported exactly once if and only if none touches, or there is
exactly one saved register, it has a size, and the program counter is known. -/
theorem reported_once_iff (target : Target) (info : StackFrameInfo)
    (insns : List InstructionDescription) (hproper : ∀ o ∈ overwrites info insns, o.Proper target) :
    ReportedOnce target info insns ↔
      (∀ o ∈ overwrites info insns, ¬ o.Touches target) ∨
      info.savedRegisters.length = 1 ∧ ∀ o ∈ overwrites info insns, o.Touches target →
        o.regSize target ≠ 0 ∧ PcKnown target o.insn := by
  constructor
  · intro honce
    by_cases hempty : touching target info insns = []
    · left
      intro o ho htouches
      exact List.ne_nil_of_mem (mem_touching.mpr ⟨ho, htouches⟩) hempty
    · right
      have hne : info.savedRegisters ≠ [] := by
        intro hnil
        refine hempty ?_
        simp [touching, overwrites, hnil]
      obtain ⟨reports, hreports, -⟩ := id honce
      obtain ⟨r, hr⟩ := exists_touching_reports hproper hne hreports
      have hlength := honce.length_eq hproper hr
      have hpos : 0 < info.savedRegisters.length := List.length_pos_iff.mpr hne
      have htpos : 0 < (touching target info insns).length := List.length_pos_iff.mpr hempty
      have hle : (overlapping target info insns).length ≤ (touching target info insns).length := by
        rw [overlapping_eq hproper]
        exact List.length_filter_le _ _
      -- more than one pass would report more than touches
      have hone : info.savedRegisters.length = 1 := by
        by_contra hmany
        have htwo : 2 * (touching target info insns).length ≤
            info.savedRegisters.length * (touching target info insns).length :=
          Nat.mul_le_mul_right _ (by omega)
        omega
      rw [hone, Nat.one_mul, overlapping_eq hproper, eq_comm, List.length_filter_eq_length_iff]
        at hlength
      refine ⟨hone, fun o ho htouches => ⟨?_, ?_⟩⟩
      · have hoverlaps := hlength o (mem_touching.mpr ⟨ho, htouches⟩)
        rw [decide_eq_true_eq, Overwrite.overlaps_iff (hproper o ho).change_ne] at hoverlaps
        exact hoverlaps.2
      · have hlog : o.log target ∈ r.map Except.ok := by
          rw [← hr]
          exact List.mem_map.mpr ⟨o, mem_touching.mpr ⟨ho, htouches⟩, rfl⟩
        obtain ⟨report, -, hreport⟩ := List.mem_map.mp hlog
        exact (log_ok_iff target o).mp ⟨report, hreport.symm⟩
  · rintro (hnone | ⟨hone, hall⟩)
    · apply reportedOnce_of_nothing hproper
      apply List.eq_nil_iff_forall_not_mem.mpr
      intro o ho
      exact hnone o (mem_touching.mp ho).1 (mem_touching.mp ho).2
    · apply reportedOnce_of_one hproper hone
      intro o ho
      obtain ⟨hmem, htouches⟩ := mem_touching.mp ho
      obtain ⟨hsize, hpc⟩ := hall o hmem htouches
      exact ⟨(Overwrite.overlaps_iff (hproper o hmem).change_ne).mpr ⟨htouches, hsize⟩, hpc⟩

/-- A 32-bit target with two general registers. -/
def sampleTarget : Target :=
  ⟨registerTypeResolverX86, [⟨3, "ebx", 4⟩, ⟨5, "ebp", 4⟩, ⟨8, "eip", 4⟩]⟩

/-- An instruction that writes two bytes. -/
def sampleWrite (address : UInt64) : InstructionDescription :=
  { memoryChanges := [⟨address, [0x41, 0x41]⟩] }

/-- Two bytes of the only saved register are overwritten. -/
theorem reported_once_ebp :
    ReportedOnce sampleTarget ⟨[("ebp", some 0x1000)], by simp⟩ [sampleWrite 0x1002] := by
  have hproper : ∀ o ∈ overwrites ⟨[("ebp", some 0x1000)], by simp⟩ [sampleWrite 0x1002],
      o.Proper sampleTarget := by
    intro o ho
    obtain rfl := List.mem_singleton.mp ho
    exact ⟨⟨⟨5, "ebp", 4⟩, rfl⟩, by decide, by simp, by simp⟩
  refine (reported_once_iff _ _ _ hproper).mpr (.inr ⟨rfl, fun o ho _ => ?_⟩)
  obtain rfl := List.mem_singleton.mp ho
  exact ⟨by decide, .inl rfl⟩

/-- With a second saved register the same overwrite is reported twice. -/
theorem reported_twice :
    ¬ ReportedOnce sampleTarget ⟨[("ebx", some 0x2000), ("ebp", some 0x1000)], by simp⟩
      [sampleWrite 0x1002] := by
  rintro ⟨reports, hreports, hperm⟩
  have htwo : analyzeSavedRegisters sampleTarget
      (some ⟨[("ebx", some 0x2000), ("ebp", some 0x1000)], by simp⟩) [sampleWrite 0x1002] =
        .ok (List.replicate 2 ⟨"ebp", 0x1000, none, 0x1002, 2⟩) := rfl
  rw [htwo] at hreports
  cases hreports
  exact absurd hperm.length_eq (by decide)

end InMemoryFuzzing.Analyzers

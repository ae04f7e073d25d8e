import InMemoryFuzzing.Analyzers.HeapOverflow

/-!
# Which block a write is measured against

The comment in the range loop says that it calculates the smallest distance to an
allocated block. The comparison is the other way round: a candidate is replaced
by a farther one, unless one of the two contains the byte (`rangeLoop_best`).
`nearest_used_iff` says when that makes no difference.
-/

namespace InMemoryFuzzing.Analyzers

open Base Platform CoreDump

/-! ## Distances -/

/-- A range of at least one byte below `2^63`. -/
def RangeInfo.Proper (r : RangeInfo) : Prop :=
  1 ≤ r.size.toNat ∧ r.startAddress.toNat + r.size.toNat ≤ 2 ^ 63

/-- How far an address is from a block, in bytes; 0 inside. -/
def gap (address : UInt64) (r : RangeInfo) : Nat :=
  (r.startAddress.toNat - address.toNat) +
    (address.toNat - (r.startAddress.toNat + r.size.toNat - 1))

theorem endAddress_toNat {r : RangeInfo} (h : r.Proper) :
    r.endAddress.toNat = r.startAddress.toNat + r.size.toNat - 1 := by
  obtain ⟨hsize, hend⟩ := h
  rw [RangeInfo.endAddress, UInt64.toNat_sub, UInt64.toNat_add]
  have hone : (1 : UInt64).toNat = 1 := rfl
  rw [hone]
  omega

theorem castLong_eq {x : Int} (hlo : -2 ^ 63 ≤ x) (hhi : x < 2 ^ 63) : castLong x = x := by
  rw [castLong, Int.bmod_def]
  omega

/-- The distance of an address below `2^63`. -/
theorem natAbs_distance {r : RangeInfo} (h : r.Proper) {address : UInt64}
    (haddress : address.toNat < 2 ^ 63) :
    (r.distance address).natAbs = gap address r ∧ r.distance address ≠ -2 ^ 63 := by
  have hend := endAddress_toNat h
  obtain ⟨hsize, hle⟩ := h
  have hlong : castLong address.toNat = address.toNat := castLong_eq (by omega) (by omega)
  have hstartLong : castLong r.startAddress.toNat = r.startAddress.toNat :=
    castLong_eq (by omega) (by omega)
  have hendLong : castLong r.endAddress.toNat = r.endAddress.toNat :=
    castLong_eq (by omega) (by omega)
  simp only [RangeInfo.distance, gap, hlong, hstartLong, hendLong, UInt64.lt_iff_toNat_lt]
  split
  · rw [castLong_eq (by omega) (by omega)]
    omega
  · split
    · rw [castLong_eq (by omega) (by omega)]
      omega
    · omega

/-! ## The loop keeps the farthest range -/

/-- What the loop knows about one byte behind the ranges `seen`: a range that
contains the byte, or else the one that is farthest away. -/
def Best (address : UInt64) (seen : List RangeInfo) : Candidate → Prop
  | none => seen = []
  | some (distance, r) => r ∈ seen ∧ distance = r.distance address ∧
      (distance = 0 ∨ ∀ s ∈ seen, 0 < gap address s ∧ gap address s ≤ gap address r)

theorem distance_eq_zero_iff {r : RangeInfo} (h : r.Proper) {address : UInt64}
    (haddress : address.toNat < 2 ^ 63) : r.distance address = 0 ↔ gap address r = 0 := by
  rw [← (natAbs_distance h haddress).1, Int.natAbs_eq_zero]

theorem mathAbs_eq {x : Int} (h : x ≠ -2 ^ 63) : mathAbs x = .ok (x.natAbs : Int) := by
  rw [mathAbs, if_neg h, Int.abs_eq_natAbs]

theorem replaces_some {address : UInt64} (haddress : address.toNat < 2 ^ 63) {b r : RangeInfo}
    (hb : b.Proper) (hr : r.Proper) :
    replaces (some (b.distance address, b)) (r.distance address) =
      .ok (decide (gap address r = 0 ∨ gap address b ≠ 0 ∧ gap address b < gap address r)) := by
  have hrzero := distance_eq_zero_iff hr haddress
  have hbzero := distance_eq_zero_iff hb haddress
  obtain ⟨hrabs, hrne⟩ := natAbs_distance hr haddress
  obtain ⟨hbabs, hbne⟩ := natAbs_distance hb haddress
  rw [replaces]
  by_cases hlocal : r.distance address = 0
  · rw [if_pos hlocal, decide_eq_true (.inl (hrzero.mp hlocal))]
  · rw [if_neg hlocal]
    by_cases hbest : b.distance address = 0
    · rw [if_pos hbest, decide_eq_false]
      rintro (h | h)
      · exact hlocal (hrzero.mpr h)
      · exact h.1 (hbzero.mp hbest)
    · rw [if_neg hbest, mathAbs_eq hrne, mathAbs_eq hbne, hrabs, hbabs]
      show Except.ok (decide ((gap address r : Int) > gap address b)) = _
      congr 1
      rw [decide_eq_decide]
      have hrpos := mt hrzero.mpr hlocal
      have hbpos := mt hbzero.mpr hbest
      omega

/-- One range keeps what the loop knows. -/
theorem considerRange_best {address : UInt64} (haddress : address.toNat < 2 ^ 63)
    {seen : List RangeInfo} (hseen : ∀ s ∈ seen, s.Proper) {r : RangeInfo} (hr : r.Proper)
    {candidate : Candidate} (hbest : Best address seen candidate) :
    ∃ next, considerRange candidate r address = .ok next ∧ Best address (seen ++ [r]) next := by
  have hrzero := distance_eq_zero_iff hr haddress
  cases candidate with
  | none =>
      refine ⟨some (r.distance address, r), rfl, by simp, rfl, ?_⟩
      have hempty : seen = [] := hbest
      rw [hempty, List.nil_append, List.forall_mem_singleton]
      by_cases h : r.distance address = 0
      · exact .inl h
      · exact .inr ⟨Nat.pos_of_ne_zero (mt hrzero.mpr h), Nat.le_refl _⟩
  | some best =>
      obtain ⟨d, b⟩ := best
      obtain ⟨hmem, rfl, hfar⟩ := hbest
      have hb := hseen b hmem
      have hbzero := distance_eq_zero_iff hb haddress
      have hreplaces := replaces_some haddress hb hr
      by_cases hcond : gap address r = 0 ∨ gap address b ≠ 0 ∧ gap address b < gap address r
      · rw [decide_eq_true hcond] at hreplaces
        refine ⟨some (r.distance address, r), ?_, by simp, rfl, ?_⟩
        · rw [considerRange, hreplaces]
          rfl
        · rcases hcond with hzero | ⟨hne, hlt⟩
          · exact .inl (hrzero.mpr hzero)
          · refine .inr fun s hs => ?_
            rcases List.mem_append.mp hs with hs | hs
            · have hall := (hfar.resolve_left (mt hbzero.mp hne)) s hs
              omega
            · rw [List.mem_singleton.mp hs]
              omega
      · rw [decide_eq_false hcond] at hreplaces
        refine ⟨some (b.distance address, b), ?_, List.mem_append_left _ hmem, rfl, ?_⟩
        · rw [considerRange, hreplaces]
          rfl
        · rcases hfar with hzero | hfar
          · exact .inl hzero
          · refine .inr fun s hs => ?_
            have hbpos := (hfar b hmem).1
            rcases List.mem_append.mp hs with hs | hs
            · exact hfar s hs
            · rw [List.mem_singleton.mp hs]
              omega

/-- A range that contains the byte is the best one, whatever follows. -/
theorem Best.append_of_zero {address : UInt64} {seen : List RangeInfo} {r : RangeInfo}
    (h : Best address seen (some (0, r))) (rest : List RangeInfo) :
    Best address (seen ++ rest) (some (0, r)) :=
  ⟨List.mem_append_left _ h.1, h.2.1, .inl rfl⟩

theorem done_iff {c : Candidates} (h : c.done = true) :
    ∃ r s, c.start = some (0, r) ∧ c.finish = some (0, s) := by
  obtain ⟨start, finish⟩ := c
  match start, finish, h with
  | some (d, r), some (e, s), h =>
      simp only [Candidates.done, Bool.and_eq_true, decide_eq_true_eq] at h
      exact ⟨r, s, by rw [h.1], by rw [h.2]⟩

/-- Behind the loop the candidates are the best ones of all ranges, also when it
ended early. -/
theorem rangeLoop_best {first last : UInt64} (hfirst : first.toNat < 2 ^ 63)
    (hlast : last.toNat < 2 ^ 63) {seen rest : List RangeInfo}
    (hproper : ∀ r ∈ seen ++ rest, r.Proper)
    {c : Candidates} (hstart : Best first seen c.start) (hfinish : Best last seen c.finish) :
    ∃ c', rangeLoop first last c rest = .ok c' ∧ Best first (seen ++ rest) c'.start ∧
      Best last (seen ++ rest) c'.finish := by
  induction rest generalizing seen c with
  | nil =>
      rw [List.append_nil]
      exact ⟨c, rfl, hstart, hfinish⟩
  | cons r rest ih =>
      have hr : r.Proper := hproper r (by simp)
      have hseen : ∀ s ∈ seen, s.Proper := fun s hs => hproper s (by simp [hs])
      obtain ⟨start, hstartEq, hstart⟩ := considerRange_best hfirst hseen hr hstart
      obtain ⟨finish, hfinishEq, hfinish⟩ := considerRange_best hlast hseen hr hfinish
      have hsplit : seen ++ r :: rest = (seen ++ [r]) ++ rest := by simp
      rw [rangeLoop, hstartEq, hfinishEq]
      show ∃ c', (if (Candidates.mk start finish).done = true then _ else _) = _ ∧ _
      rw [hsplit]
      by_cases hdone : (Candidates.mk start finish).done = true
      · obtain ⟨s, t, hs, ht⟩ := done_iff hdone
        dsimp only at hs ht
        subst hs ht
        rw [if_pos hdone]
        exact ⟨_, rfl, hstart.append_of_zero rest, hfinish.append_of_zero rest⟩
      · rw [if_neg hdone]
        exact ih (by rwa [← hsplit]) hstart hfinish

/-! ## When the farthest range is the nearest -/

/-- The distance of an address from the nearest range. -/
def nearest (ranges : List RangeInfo) (address : UInt64) : Option Nat :=
  (ranges.map (gap address)).min?

/-- The address lies in one of the ranges, or it is equally far from all of them. -/
def Balanced (ranges : List RangeInfo) (address : UInt64) : Prop :=
  (∃ r ∈ ranges, gap address r = 0) ∨ ∀ r ∈ ranges, ∀ s ∈ ranges, gap address r = gap address s

theorem nearest_eq_some_iff {ranges : List RangeInfo} {address : UInt64} {n : Nat} :
    nearest ranges address = some n ↔
      (∃ r ∈ ranges, gap address r = n) ∧ ∀ r ∈ ranges, n ≤ gap address r := by
  rw [nearest, List.min?_eq_some_iff]
  simp

/-- The candidate of the loop is at the smallest distance exactly for an address
that lies in a range or is equally far from all of them. -/
theorem Best.nearest_iff {ranges : List RangeInfo} (hproper : ∀ r ∈ ranges, r.Proper)
    {address : UInt64} (haddress : address.toNat < 2 ^ 63) {d : Int} {r : RangeInfo}
    (h : Best address ranges (some (d, r))) :
    nearest ranges address = some d.natAbs ↔ Balanced ranges address := by
  obtain ⟨hmem, rfl, hfar⟩ := h
  rw [(natAbs_distance (hproper r hmem) haddress).1, nearest_eq_some_iff]
  constructor
  · rintro ⟨-, hle⟩
    rcases hfar with hzero | hfar
    · exact .inl ⟨r, hmem, (distance_eq_zero_iff (hproper r hmem) haddress).mp hzero⟩
    · refine .inr fun s hs t ht => ?_
      have hs' := hle s hs
      have ht' := hle t ht
      have hsfar := hfar s hs
      have htfar := hfar t ht
      omega
  · intro hbalanced
    refine ⟨⟨r, hmem, rfl⟩, fun s hs => ?_⟩
    rcases hfar with hzero | hfar
    · rw [(distance_eq_zero_iff (hproper r hmem) haddress).mp hzero]
      exact Nat.zero_le _
    · rcases hbalanced with ⟨t, ht, hzero⟩ | heq
      · have := (hfar t ht).1
        omega
      · exact Nat.le_of_eq (heq r hmem s hs)

/-! ## Reports -/

/-- What is to be reported of a write, by the distances of its first and its last
byte from the nearest range. -/
def expectedType (ranges : List RangeInfo) (first last : UInt64) : Option OverflowType :=
  match nearest ranges first, nearest ranges last with
  | some f, some l =>
      if 0 < f ∧ f < 4096 then some (if l ≠ 0 then .startAndEnd else .start)
      else if 0 < l ∧ l < 4096 then some .end_
      else none
  | _, _ => none

/-- Both distances of a write are the smallest ones, and the report says so. -/
structure NearestUsed (ranges : List RangeInfo) (memChange : MemoryChange) : Prop where
  distances : ∃ d r e s, rangeLoop memChange.address (lastByte memChange) ⟨none, none⟩ ranges =
      .ok ⟨some (d, r), some (e, s)⟩ ∧
    nearest ranges memChange.address = some d.natAbs ∧
    nearest ranges (lastByte memChange) = some e.natAbs
  report : ∃ report, analyzeChange ranges memChange = .ok report ∧
    report.map OverflowReport.overflowType =
      expectedType ranges memChange.address (lastByte memChange)

theorem isNear_some {d : Int} (h : d ≠ -2 ^ 63) (r : RangeInfo) :
    isNear (some (d, r)) = .ok (decide (0 < d.natAbs ∧ d.natAbs < 4096)) := by
  rw [isNear]
  by_cases hzero : d = 0
  · rw [if_pos hzero, decide_eq_false]
    omega
  · rw [if_neg hzero, mathAbs_eq h]
    show Except.ok (decide ((d.natAbs : Int) < 4096)) = _
    exact congrArg Except.ok (decide_eq_decide.mpr (by omega))

/-- The report for given candidates. -/
theorem logOverflow_some (memChange : MemoryChange) {d e : Int} (hd : d ≠ -2 ^ 63)
    (he : e ≠ -2 ^ 63) (r s : RangeInfo) :
    ∃ report, logOverflow memChange ⟨some (d, r), some (e, s)⟩ = .ok report ∧
      report.map OverflowReport.overflowType =
        if 0 < d.natAbs ∧ d.natAbs < 4096 then some (if e.natAbs ≠ 0 then .startAndEnd else .start)
        else if 0 < e.natAbs ∧ e.natAbs < 4096 then some .end_
        else none := by
  have houtside : isOutside (some (e, s)) = decide (e.natAbs ≠ 0) := by
    show decide (e ≠ 0) = _
    rw [decide_eq_decide]
    omega
  rw [logOverflow, isNear_some hd, isNear_some he, houtside]
  by_cases hnear : 0 < d.natAbs ∧ d.natAbs < 4096
  · rw [if_pos hnear, decide_eq_true hnear]
    refine ⟨_, rfl, ?_⟩
    by_cases hout : e.natAbs ≠ 0
    · rw [if_pos hout, decide_eq_true hout]
      rfl
    · rw [if_neg hout, decide_eq_false hout]
      rfl
  · rw [if_neg hnear, decide_eq_false hnear]
    by_cases hnear' : 0 < e.natAbs ∧ e.natAbs < 4096
    · rw [if_pos hnear', decide_eq_true hnear']
      exact ⟨_, rfl, rfl⟩
    · rw [if_neg hnear', decide_eq_false hnear']
      exact ⟨none, rfl, rfl⟩

/-- A write of at least one byte below `2^63`. -/
def ProperWrite (memChange : MemoryChange) : Prop :=
  memChange.value ≠ [] ∧ memChange.address.toNat + memChange.value.length ≤ 2 ^ 63

theorem lastByte_toNat {memChange : MemoryChange} (h : ProperWrite memChange) :
    (lastByte memChange).toNat = memChange.address.toNat + memChange.value.length - 1 := by
  obtain ⟨hne, hle⟩ := h
  have hpos : 0 < memChange.value.length := List.length_pos_iff.mpr hne
  have hone : (1 : UInt64).toNat = 1 := rfl
  rw [lastByte, UInt64.toNat_sub, UInt64.toNat_add, UInt64.toNat_ofNat', hone]
  omega

/-- The loop over a non-empty list of ranges finds a candidate for both bytes. -/
theorem rangeLoop_some {ranges : List RangeInfo} (hne : ranges ≠ [])
    (hproper : ∀ r ∈ ranges, r.Proper) {first last : UInt64} (hfirst : first.toNat < 2 ^ 63)
    (hlast : last.toNat < 2 ^ 63) :
    ∃ d r e s, rangeLoop first last ⟨none, none⟩ ranges = .ok ⟨some (d, r), some (e, s)⟩ ∧
      Best first ranges (some (d, r)) ∧ Best last ranges (some (e, s)) := by
  obtain ⟨⟨start, finish⟩, hloop, hstart, hfinish⟩ :=
    @rangeLoop_best first last hfirst hlast [] ranges hproper ⟨none, none⟩ rfl rfl
  rw [List.nil_append] at hstart hfinish
  match start, finish, hstart, hfinish with
  | none, _, hstart, _ => exact absurd hstart hne
  | some _, none, _, hfinish => exact absurd hfinish hne
  | some (d, r), some (e, s), hstart, hfinish => exact ⟨d, r, e, s, hloop, hstart, hfinish⟩

section

variable {ranges : List RangeInfo} {memChange : MemoryChange} (hne : ranges ≠ [])
variable (hproper : ∀ r ∈ ranges, r.Proper) (hwrite : ProperWrite memChange)

include hne hproper hwrite

/-- The candidates for the two ends of a write. -/
theorem analyzeChange_candidates :
    memChange.address.toNat < 2 ^ 63 ∧ (lastByte memChange).toNat < 2 ^ 63 ∧
      ∃ d r e s, rangeLoop memChange.address (lastByte memChange) ⟨none, none⟩ ranges =
          .ok ⟨some (d, r), some (e, s)⟩ ∧
        Best memChange.address ranges (some (d, r)) ∧
        Best (lastByte memChange) ranges (some (e, s)) := by
  have hlastEq := lastByte_toNat hwrite
  have hpos : 0 < memChange.value.length := List.length_pos_iff.mpr hwrite.1
  have hle := hwrite.2
  have hfirst : memChange.address.toNat < 2 ^ 63 := by omega
  have hlast : (lastByte memChange).toNat < 2 ^ 63 := by omega
  exact ⟨hfirst, hlast, rangeLoop_some hne hproper hfirst hlast⟩

/-- The distances of the candidates are the smallest ones only if both ends lie in a
range or are equally far from all. -/
theorem NearestUsed.balanced (hused : NearestUsed ranges memChange) :
    Balanced ranges memChange.address ∧ Balanced ranges (lastByte memChange) := by
  obtain ⟨hfirst, hlast, d, r, e, s, hloop, hstart, hfinish⟩ :=
    analyzeChange_candidates hne hproper hwrite
  obtain ⟨d', r', e', s', hloop', hd, he⟩ := hused.distances
  -- the loop has one result
  rw [hloop] at hloop'
  cases hloop'
  exact ⟨(hstart.nearest_iff hproper hfirst).mp hd, (hfinish.nearest_iff hproper hlast).mp he⟩

theorem nearestUsed_of_balanced (hstartBalanced : Balanced ranges memChange.address)
    (hfinishBalanced : Balanced ranges (lastByte memChange)) : NearestUsed ranges memChange := by
  obtain ⟨hfirst, hlast, d, r, e, s, hloop, hstart, hfinish⟩ :=
    analyzeChange_candidates hne hproper hwrite
  have hd := (hstart.nearest_iff hproper hfirst).mpr hstartBalanced
  have he := (hfinish.nearest_iff hproper hlast).mpr hfinishBalanced
  have hdne : d ≠ -2 ^ 63 := by
    rw [hstart.2.1]
    exact (natAbs_distance (hproper r hstart.1) hfirst).2
  have hene : e ≠ -2 ^ 63 := by
    rw [hfinish.2.1]
    exact (natAbs_distance (hproper s hfinish.1) hlast).2
  obtain ⟨report, hreport, htype⟩ := logOverflow_some memChange hdne hene r s
  refine ⟨⟨d, r, e, s, hloop, hd, he⟩, report, ?_, ?_⟩
  · rw [analyzeChange, hloop]
    exact hreport
  · rw [htype, expectedType, hd, he]

end

/-- A write is measured against the nearest range, and reported accordingly,
exactly when each of its two ends lies in a range or is equally far from all. -/
theorem nearest_used_iff (ranges : List RangeInfo) (memChange : MemoryChange) (hne : ranges ≠ [])
    (hproper : ∀ r ∈ ranges, r.Proper) (hwrite : ProperWrite memChange) :
    NearestUsed ranges memChange ↔
      Balanced ranges memChange.address ∧ Balanced ranges (lastByte memChange) := by
  constructor
  · exact NearestUsed.balanced hne hproper hwrite
  · rintro ⟨hstart, hfinish⟩
    exact nearestUsed_of_balanced hne hproper hwrite hstart hfinish

/-- Two blocks, and a byte written into the first one. -/
theorem nearest_used_two :
    NearestUsed [⟨0x1000, 16, []⟩, ⟨0x9000, 16, []⟩] ⟨0x1008, [0x41]⟩ := by
  refine (nearest_used_iff [⟨0x1000, 16, []⟩, ⟨0x9000, 16, []⟩] ⟨0x1008, [0x41]⟩ (by simp) ?_ ?_).mpr
    ⟨?_, ?_⟩
  · rintro r hr
    rcases List.mem_pair.mp hr with rfl | rfl <;> exact ⟨by decide, by decide⟩
  · exact ⟨by simp, by decide⟩
  · exact .inl ⟨⟨0x1000, 16, []⟩, List.mem_cons_self, by decide⟩
  · exact .inl ⟨⟨0x1000, 16, []⟩, List.mem_cons_self, by decide⟩

/-- Directly behind the first one the same write is not reported: it is measured against
the second one, 32 KiB further on. -/
theorem farthest_used :
    ¬ NearestUsed [⟨0x1000, 16, []⟩, ⟨0x9000, 16, []⟩] ⟨0x1010, [0x41]⟩ := by
  rintro ⟨-, report, hreport, htype⟩
  have hnone : analyzeChange [⟨0x1000, 16, []⟩, ⟨0x9000, 16, []⟩] ⟨0x1010, [0x41]⟩ = .ok none := rfl
  rw [hnone] at hreport
  cases hreport
  exact absurd htype (by decide)

/-! ## A whole log -/

/-- Where every write is measured against the nearest range, the reports are those that
the distances ask for, in the order of the writes. -/
theorem analyzeChanges_types {ranges : List RangeInfo} {memoryChanges : List MemoryChange}
    (h : ∀ memChange ∈ memoryChanges, NearestUsed ranges memChange) :
    ∃ reports, analyzeChanges ranges memoryChanges = .ok reports ∧
      reports.map OverflowReport.overflowType = memoryChanges.filterMap
        fun memChange => expectedType ranges memChange.address (lastByte memChange) := by
  rw [analyzeChanges]
  induction memoryChanges with
  | nil => exact ⟨[], rfl, rfl⟩
  | cons memChange rest ih =>
      rw [List.forall_mem_cons] at h
      obtain ⟨report, hreport, htype⟩ := h.1.report
      obtain ⟨reports, hreports, htypes⟩ := ih h.2
      refine ⟨report.toList ++ reports, ?_, ?_⟩
      · rw [collect, hreport, hreports]
        rfl
      · rw [List.map_append, htypes, List.filterMap_cons, ← htype]
        cases report <;> rfl

/-- The same for the text of a pipes file in which ranges are found. -/
theorem analyzeOverflows_types {pipesText : List Char} {ranges : List RangeInfo}
    {executedInstructions : List InstructionDescription}
    (hranges : rangeInfos pipesText = .ok ranges) (hne : ranges ≠ [])
    (h : ∀ insn ∈ executedInstructions, ∀ memChange ∈ insn.memoryChanges,
      NearestUsed ranges memChange) :
    ∃ reports, analyzeOverflows pipesText executedInstructions = .ok reports ∧
      reports.map OverflowReport.overflowType =
        (executedInstructions.flatMap InstructionDescription.memoryChanges).filterMap
          fun memChange => expectedType ranges memChange.address (lastByte memChange) := by
  have hloops : analyzeOverflows pipesText executedInstructions = analyzeChanges ranges
      (executedInstructions.flatMap InstructionDescription.memoryChanges) := by
    rw [analyzeOverflows, hranges]
    exact if_neg hne
  rw [hloops]
  apply analyzeChanges_types
  intro memChange hmem
  obtain ⟨insn, hinsn, hmem⟩ := List.mem_flatMap.mp hmem
  exact h insn hinsn memChange hmem

end InMemoryFuzzing.Analyzers

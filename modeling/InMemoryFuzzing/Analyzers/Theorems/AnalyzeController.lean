import InMemoryFuzzing.Analyzers.AnalyzeController
import InMemoryFuzzing.CoreDump.RecordLogic
import Mathlib.Data.Finset.Sort
import Mathlib.Data.Set.Finite.Lemmas

/-!
# Which runs are analysed

`Analyze` makes its calls one after the other, up to one that raises (`analyze_eq`), and
stops in front of the highest prefix: a run is reached only if the directory holds a file
with a higher number (`lt_highestPrefix_iff`).
-/

namespace InMemoryFuzzing.Analyzers

open Base Platform DotNet CoreDump

/-- The directory holds the execution log of the run. -/
def LogDirectory.HasRun (dir : LogDirectory) (n : Nat) : Prop :=
  1 ≤ n ∧ (dir.openRead (execLog n)).isSome = true

instance (dir : LogDirectory) (n : Nat) : Decidable (dir.HasRun n) :=
  inferInstanceAs (Decidable (_ ∧ _))

/-- The execution log of every run can be read. -/
def LogDirectory.Parses (dir : LogDirectory) (targetRegisters : Registers) : Prop :=
  ∀ n src, 1 ≤ n → dir.openRead (execLog n) = some src →
    ∃ insns, readSection targetRegisters src = .ok insns

/-- The runs of the directory, in increasing order. -/
structure LogDirectory.RunsAre (dir : LogDirectory) (ns : List Nat) : Prop where
  sorted : ns.Pairwise (· < ·)
  mem_iff : ∀ n, n ∈ ns ↔ dir.HasRun n

/-- The analyzers are called for the runs of the directory and no others, in
increasing order, each analyzer once. -/
def EveryRunAnalysed {α : Type} (outcome : AnalyzerOutcome α) (targetRegisters : Registers)
    (analyzers : List α) (dir : LogDirectory) : Prop :=
  ∃ ns, dir.RunsAre ns ∧
    (analyze outcome targetRegisters analyzers dir).calls.map
        (fun call => (call.runPrefix, call.analyzer)) =
      ns.flatMap fun n => analyzers.map fun analyzer => (toString n, analyzer)

/-- The calls for a run: every analyzer is shown the instructions of its log. -/
def callsFor {α : Type} (targetRegisters : Registers) (analyzers : List α) (dir : LogDirectory)
    (n : Nat) : List (AnalyzerCall α) :=
  match readExecutionLog targetRegisters dir n with
  | .ok (some insns) => analyzers.map fun analyzer => ⟨analyzer, toString n, insns⟩
  | _ => []

/-- Of these calls, each one with another one behind it returns. -/
def Uninterrupted {α : Type} (outcome : AnalyzerOutcome α) (made calls : List (AnalyzerCall α)) :
    Prop :=
  ∀ before call next after, calls = before ++ call :: next :: after →
    outcome (made ++ before) call = none

theorem execLog_injective {m n : Nat} (h : execLog m = execLog n) : m = n := by
  have hlist := congrArg String.toList h
  rw [execLog, execLog, String.toList_append, String.toList_append] at hlist
  exact toString_nat_injective (String.toList_inj.mp (List.append_cancel_right hlist))

/-- A directory has finitely many runs. -/
theorem LogDirectory.exists_runs (dir : LogDirectory) : ∃ ns, dir.RunsAre ns := by
  have hfinite : {n | dir.HasRun n}.Finite := by
    refine Set.Finite.subset (Set.Finite.preimage (fun m _ n _ => execLog_injective)
      dir.getFiles.finite_toSet) fun n hrun => ?_
    obtain ⟨p, hp, hname⟩ := List.lookup_isSome_iff.mp hrun.2
    exact List.mem_map.mpr ⟨p, hp, (eq_of_beq hname).symm⟩
  refine ⟨hfinite.toFinset.sort, (Finset.sortedLT_sort _).pairwise, fun n => ?_⟩
  rw [Finset.mem_sort, Set.Finite.mem_toFinset, Set.mem_ofPred_eq]

theorem LogDirectory.RunsAre.unique {dir : LogDirectory} {ns ns' : List Nat} (h : dir.RunsAre ns)
    (h' : dir.RunsAre ns') : ns = ns' :=
  List.Pairwise.eq_of_mem_iff h.sorted h'.sorted fun n => by rw [h.mem_iff, h'.mem_iff]

/-- A file of the directory begins with a number above `n`. -/
def LogDirectory.HasFileAbove (dir : LogDirectory) (n : Nat) : Prop :=
  ∃ file ∈ dir.getFiles, ∃ number, leadingNumber file = some number ∧ (n : Int) < number

/-! ## The highest prefix -/

theorem lt_raisePrefix_iff (n highest : Int) (file : String) :
    n < raisePrefix highest file ↔
      n < highest ∨ ∃ number, leadingNumber file = some number ∧ n < number := by
  rw [raisePrefix]
  cases leadingNumber file with
  | none => simp
  | some number =>
      simp only [Option.some.injEq, exists_eq_left']
      split <;> omega

theorem lt_highestPrefix_iff (dir : LogDirectory) (n : Nat) :
    (n : Int) < highestPrefix dir ↔ dir.HasFileAbove n := by
  have hfold : ∀ (files : List String) (highest : Int),
      (n : Int) < files.foldl raisePrefix highest ↔ (n : Int) < highest ∨
        ∃ file ∈ files, ∃ number, leadingNumber file = some number ∧ (n : Int) < number := by
    intro files
    induction files with
    | nil => simp
    | cons file files ih =>
        intro highest
        rw [List.foldl_cons, ih, lt_raisePrefix_iff, or_assoc]
        simp
  rw [highestPrefix, hfold, LogDirectory.HasFileAbove]
  exact or_iff_right (by omega)

/-! ## Calls that may raise -/

section

variable {α : Type} {outcome : AnalyzerOutcome α} {made calls front : List (AnalyzerCall α)}

theorem uninterrupted_cons_iff {call : AnalyzerCall α} :
    Uninterrupted outcome made (call :: calls) ↔
      (calls ≠ [] → outcome made call = none) ∧ Uninterrupted outcome (made ++ [call]) calls := by
  constructor
  · intro h
    constructor
    · intro hne
      obtain ⟨next, after, rfl⟩ := List.exists_cons_of_ne_nil hne
      have hfirst := h [] call next after rfl
      rwa [List.append_nil] at hfirst
    · rintro before c next after rfl
      rw [List.append_assoc]
      exact h (call :: before) c next after rfl
  · rintro ⟨hfirst, hrest⟩ before c next after hcalls
    cases before with
    | nil =>
        cases hcalls
        rw [List.append_nil]
        exact hfirst (List.cons_ne_nil next after)
    | cons first before =>
        cases hcalls
        have hlater := hrest before c next after rfl
        rwa [List.append_assoc] at hlater

/-- The calls that are made are the first ones, and all but the last of them return. -/
theorem forEach_made (outcome : AnalyzerOutcome α) (made calls : List (AnalyzerCall α)) :
    ∃ done rest, calls = done ++ rest ∧ (forEach outcome made calls).calls = made ++ done ∧
      Uninterrupted outcome made done := by
  induction calls generalizing made with
  | nil =>
      refine ⟨[], [], rfl, (List.append_nil made).symm, ?_⟩
      intro before call next after hnil
      exact absurd hnil (List.append_ne_nil_of_right_ne_nil _ (List.cons_ne_nil _ _)).symm
  | cons call calls ih =>
      cases houtcome : outcome made call with
      | some raised =>
          refine ⟨[call], calls, rfl, by rw [forEach, houtcome], ?_⟩
          rw [uninterrupted_cons_iff]
          refine ⟨fun hne => absurd rfl hne, ?_⟩
          intro before c next after hnil
          exact absurd hnil (List.append_ne_nil_of_right_ne_nil _ (List.cons_ne_nil _ _)).symm
      | none =>
          obtain ⟨done, rest, rfl, hmade, hdone⟩ := ih (made ++ [call])
          refine ⟨call :: done, rest, rfl, ?_, ?_⟩
          · rw [forEach, houtcome, hmade, List.append_assoc]
            rfl
          · rw [uninterrupted_cons_iff]
            exact ⟨fun _ => houtcome, hdone⟩

/-- They are all made if all but the last of them return. -/
theorem forEach_uninterrupted (h : Uninterrupted outcome made calls) :
    (forEach outcome made calls).calls = made ++ calls := by
  induction calls generalizing made with
  | nil => exact (List.append_nil made).symm
  | cons call calls ih =>
      rw [uninterrupted_cons_iff] at h
      cases houtcome : outcome made call with
      | none =>
          rw [forEach, houtcome, ih h.2, List.append_assoc]
          rfl
      | some raised =>
          have hnil : calls = [] := by
            by_contra hne
            rw [h.1 hne] at houtcome
            cases houtcome
          rw [forEach, houtcome, hnil]

theorem forEach_append_returned (back : List (AnalyzerCall α))
    (h : (forEach outcome made front).raised = none) :
    forEach outcome made (front ++ back) =
      forEach outcome (forEach outcome made front).calls back := by
  induction front generalizing made with
  | nil => rfl
  | cons call front ih =>
      cases houtcome : outcome made call with
      | some raised =>
          rw [forEach, houtcome] at h
          cases h
      | none =>
          simp only [forEach, houtcome] at h
          simp only [List.cons_append, forEach, houtcome]
          exact ih h

theorem forEach_append_raised (back : List (AnalyzerCall α)) {e : NetException}
    (h : (forEach outcome made front).raised = some e) :
    forEach outcome made (front ++ back) = forEach outcome made front := by
  induction front generalizing made with
  | nil => cases h
  | cons call front ih =>
      cases houtcome : outcome made call with
      | some raised => simp only [List.cons_append, forEach, houtcome]
      | none =>
          simp only [forEach, houtcome] at h
          simp only [List.cons_append, forEach, houtcome]
          exact ih h

end

/-! ## The calls -/

/-- The runs that `Analyze` reaches. -/
def reachedRuns (dir : LogDirectory) : List Nat :=
  (List.range' 1 ((highestPrefix dir).toNat - 1)).filter fun n => dir.HasRun n

theorem mem_reachedRuns {dir : LogDirectory} {n : Nat} :
    n ∈ reachedRuns dir ↔ dir.HasRun n ∧ (n : Int) < highestPrefix dir := by
  rw [reachedRuns, List.mem_filter, List.mem_range'_1, decide_eq_true_eq]
  constructor
  · rintro ⟨hrange, hrun⟩
    exact ⟨hrun, by omega⟩
  · rintro ⟨hrun, hlt⟩
    have hone := hrun.1
    exact ⟨by omega, hrun⟩

/-- All runs are reached if each has a file above it. -/
theorem runsAre_reachedRuns {dir : LogDirectory} (h : ∀ n, dir.HasRun n → dir.HasFileAbove n) :
    dir.RunsAre (reachedRuns dir) where
  sorted := (List.pairwise_lt_range' 1 Nat.one_pos).filter _
  mem_iff n := by
    rw [mem_reachedRuns, lt_highestPrefix_iff]
    exact ⟨And.left, fun hrun => ⟨hrun, h n hrun⟩⟩

section

variable {α : Type} {targetRegisters : Registers} {dir : LogDirectory}

theorem callsFor_none {analyzers : List α} {n : Nat} (h : dir.openRead (execLog n) = none) :
    callsFor targetRegisters analyzers dir n = [] := by
  rw [callsFor, readExecutionLog, h]

variable (outcome : AnalyzerOutcome α)
variable (hparses : dir.Parses targetRegisters) (analyzers : List α)

include hparses

/-- The calls for a run, without the instructions. -/
theorem map_callsFor {n : Nat} (hrun : dir.HasRun n) :
    (callsFor targetRegisters analyzers dir n).map (fun call => (call.runPrefix, call.analyzer)) =
      analyzers.map fun analyzer => (toString n, analyzer) := by
  obtain ⟨src, hsrc⟩ := Option.isSome_iff_exists.mp hrun.2
  obtain ⟨insns, hinsns⟩ := hparses n src hrun.1 hsrc
  simp only [callsFor, readExecutionLog, hsrc, hinsns, Except.map, List.map_map]
  rfl

theorem map_flatMap_callsFor {ns : List Nat} (hns : ∀ n ∈ ns, dir.HasRun n) :
    (ns.flatMap (callsFor targetRegisters analyzers dir)).map
        (fun call => (call.runPrefix, call.analyzer)) =
      ns.flatMap fun n => analyzers.map fun analyzer => (toString n, analyzer) := by
  rw [List.map_flatMap]
  apply List.flatMap_congr
  intro n hn
  exact map_callsFor hparses analyzers (hns n hn)

theorem analyzePrefix_eq (made : List (AnalyzerCall α)) {n : Nat} (hn : 1 ≤ n) :
    analyzePrefix outcome targetRegisters analyzers dir made n =
      forEach outcome made (callsFor targetRegisters analyzers dir n) := by
  rw [analyzePrefix, callsFor, readExecutionLog]
  cases hsrc : dir.openRead (execLog n) with
  | none => rfl
  | some src =>
      obtain ⟨insns, hinsns⟩ := hparses n src hn hsrc
      simp only [hinsns]
      rfl

theorem analyzeFrom_eq (made : List (AnalyzerCall α)) {ns : List Nat} (hns : ∀ n ∈ ns, 1 ≤ n) :
    analyzeFrom outcome targetRegisters analyzers dir made ns =
      forEach outcome made (ns.flatMap (callsFor targetRegisters analyzers dir)) := by
  induction ns generalizing made with
  | nil => rfl
  | cons n ns ih =>
      rw [List.forall_mem_cons] at hns
      simp only [analyzeFrom, analyzePrefix_eq outcome hparses analyzers made hns.1,
        List.flatMap_cons]
      split
      · rename_i raised hraised
        exact (forEach_append_raised _ hraised).symm
      · rename_i hreturned
        rw [forEach_append_returned _ hreturned]
        exact ih _ hns.2

/-- `Analyze` goes through the calls for the runs it reaches. -/
theorem analyze_eq : analyze outcome targetRegisters analyzers dir =
    forEach outcome [] ((reachedRuns dir).flatMap (callsFor targetRegisters analyzers dir)) := by
  have hskip : ∀ ns : List Nat, (∀ n ∈ ns, 1 ≤ n) →
      ns.flatMap (callsFor targetRegisters analyzers dir) =
        (ns.filter fun n => dir.HasRun n).flatMap (callsFor targetRegisters analyzers dir) := by
    intro ns
    induction ns with
    | nil => exact fun _ => rfl
    | cons n ns ih =>
        intro hns
        rw [List.forall_mem_cons] at hns
        rw [List.flatMap_cons, ih hns.2]
        by_cases hrun : dir.HasRun n
        · rw [List.filter_cons_of_pos (by simpa using hrun), List.flatMap_cons]
        · have hnone : dir.openRead (execLog n) = none := by
            rw [← Option.not_isSome_iff_eq_none]
            exact fun hsome => hrun ⟨hns.1, hsome⟩
          rw [List.filter_cons_of_neg (by simpa using hrun), callsFor_none hnone, List.nil_append]
  have hrange : ∀ n ∈ List.range' 1 ((highestPrefix dir).toNat - 1), 1 ≤ n := fun n hn =>
    (List.mem_range'_1.mp hn).1
  rw [analyze, analyzeFrom_eq outcome hparses analyzers [] hrange, hskip _ hrange]
  rfl

end

/-- The shortest execution log. -/
def emptyLog : List UInt8 := magicBytes

theorem readSection_emptyLog (targetRegisters : Registers) :
    ∃ insns, readSection targetRegisters emptyLog = .ok insns := by
  refine ⟨instructionsOf [], ?_⟩
  show readSection targetRegisters (magicBytes ++ encodeItems []) = _
  apply readSection_encode
  intro item hitem
  cases hitem

theorem execLog_getLast (n : Nat) : (execLog n).toList.getLast? = some 'g' := by
  rw [execLog, String.toList_append, List.getLast?_append]
  rfl

/-- Execution logs without entries can be read. -/
theorem parses_of_emptyLog {dir : LogDirectory}
    (h : ∀ p ∈ dir.files, p.1.toList.getLast? = some 'g' → p.2 = emptyLog)
    (targetRegisters : Registers) : dir.Parses targetRegisters := by
  intro n src _ hsrc
  obtain ⟨before, behind, hfiles, -⟩ := List.lookup_eq_some_iff.mp hsrc
  have hmem : (execLog n, src) ∈ dir.files := by
    rw [hfiles]
    exact List.mem_append_right _ List.mem_cons_self
  have hempty : src = emptyLog := h _ hmem (execLog_getLast n)
  rw [hempty]
  exact readSection_emptyLog targetRegisters

/-- Two finished runs, and the data of the next one, which was not finished. -/
def twoRuns : LogDirectory :=
  ⟨[("1.execlog", emptyLog), ("2.execlog", emptyLog), ("3.fuzzdata", [])], by decide⟩

theorem execLog_of_twoRuns {n : Nat} (h : twoRuns.HasRun n) : n = 1 ∨ n = 2 := by
  obtain ⟨p, hp, hname⟩ := List.lookup_isSome_iff.mp h.2
  have hname := eq_of_beq hname
  rcases List.mem_cons.mp hp with rfl | hp
  · exact .inl (execLog_injective (hname.trans (by decide)))
  rcases List.mem_cons.mp hp with rfl | hp
  · exact .inr (execLog_injective (hname.trans (by decide)))
  · obtain rfl := List.mem_singleton.mp hp
    have hlast := execLog_getLast n
    rw [hname] at hlast
    exact absurd hlast (by decide)

end InMemoryFuzzing.Analyzers

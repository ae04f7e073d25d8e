import InMemoryFuzzing.Gdb.Debugger

/-!
# A gdb

`Debugger.plain` sets every breakpoint, keeps the whole record and announces what it
comes to; where the program goes is chosen. It does what the manual says
(`plain_documented`), so the assumptions about gdb can be met, with any memory.
-/

namespace InMemoryFuzzing.Gdb

open Base Platform DotNet

variable {M : Type} {chars : CharData}

/-- Where a program goes that goes on, or that it ends. -/
structure Way (M : Type) where
  passed : List (Moment M)
  ends : Bool

namespace Target

variable (t : Target M)

/-- The line about the breakpoint that the program is at, if it is at one. -/
def report : List (List Char) :=
  (t.now.bind fun moment => (t.breakpoints.find? fun b => b.2 = moment.pc).map fun b =>
    breakpointText b.1 (.of moment.pc) "main ()".toList).toList

/-- Back to the last breakpoint, or to the beginning. -/
def back : List (Moment M) → Option (Moment M × List (Moment M))
  | [] => none
  | moment :: past =>
      if t.isBreakpoint moment = true ∨ past = [] then some (moment, past) else back past

/-- The program has gone on. -/
def goOn (way : Way M) (moment : Moment M) : Target M :=
  if way.ends then { t with now := none, recording := false, past := [] }
  else { t with
    now := some (way.passed.getLastD moment)
    past := if t.recording then (way.passed.reverse ++ moment :: t.past).tail else [] }

theorem goOn_ends {way : Way M} (hends : way.ends = true) (moment : Moment M) :
    t.goOn way moment = { t with now := none, recording := false, past := [] } := by
  rw [goOn, if_pos hends]

theorem goOn_goes {way : Way M} (hends : ¬way.ends = true) (moment : Moment M) :
    t.goOn way moment = { t with
      now := some (way.passed.getLastD moment)
      past := if t.recording then (way.passed.reverse ++ moment :: t.past).tail else [] } := by
  rw [goOn, if_neg hends]

theorem report_reports : t.Reports chars t.report := by
  cases hnow : t.now with
  | none =>
      refine .inl ?_
      rw [report, hnow]
      exact fun line hline => absurd hline List.not_mem_nil
  | some moment =>
      cases hmet : t.breakpoints.find? fun b => b.2 = moment.pc with
      | none =>
          refine .inl ?_
          rw [report, hnow, Option.bind_some, hmet]
          exact fun line hline => absurd hline List.not_mem_nil
      | some b =>
          have hat : b.2 = moment.pc := by simpa using List.find?_some hmet
          have hmem : (b.1, moment.pc) ∈ t.breakpoints := hat ▸ List.mem_of_find?_eq_some hmet
          refine .inr ⟨.breakpoint b.1 (.of moment.pc) "main ()".toList, [], [], ?_,
            fun line hline => absurd hline List.not_mem_nil,
            fun line hline => absurd hline List.not_mem_nil, moment, hnow, hmem, rfl⟩
          rw [report, hnow, Option.bind_some, hmet]
          rfl

/-- What gdb writes at the beginning of the record. -/
theorem noHistory_reports {moment : Moment M} (hnow : t.now = some moment) :
    t.Reports chars [noHistoryText] :=
  .inr ⟨.noHistory none, [], [], rfl, fun _ hline => absurd hline List.not_mem_nil,
    fun _ hline => absurd hline List.not_mem_nil, moment, hnow, fun _ hline => by cases hline⟩

theorem exit_reports (hnow : t.now = none) : t.Reports chars [exitText] :=
  .inr ⟨.exited, [], [], rfl, fun _ hline => absurd hline List.not_mem_nil,
    fun _ hline => absurd hline List.not_mem_nil, hnow⟩

theorem back_none {past : List (Moment M)} (h : t.back past = none) : past = [] := by
  induction past with
  | nil => rfl
  | cons moment past ih =>
      rw [back] at h
      split at h
      · cases h
      · next hon => exact absurd (.inr (ih h)) hon

/-- It does not go past a breakpoint. -/
theorem back_some {past rest : List (Moment M)} {now : Moment M} (h : t.back past = some (now, rest)) :
    ∃ skipped, past = skipped ++ now :: rest ∧ ∀ m ∈ skipped, t.isBreakpoint m = false := by
  induction past with
  | nil => cases h
  | cons moment past ih =>
      rw [back] at h
      split at h
      · cases h
        exact ⟨[], rfl, fun m hm => absurd hm List.not_mem_nil⟩
      · next hon =>
          obtain ⟨skipped, rfl, hskipped⟩ := ih h
          have hpassed : t.isBreakpoint moment = false :=
            Bool.eq_false_iff.mpr fun hat => hon (.inl hat)
          exact ⟨moment :: skipped, rfl, List.forall_mem_cons.mpr ⟨hpassed, hskipped⟩⟩

end Target

namespace Debugger

/-- One that writes a memory as it is told. -/
def plain (apply : TargetCommand → M → Answer × M) : Debugger M where
  State := Target M
  Choice := Way M
  execute t way
    | .setBreakpoint place =>
        if t.lastNumber + 1 < 2 ^ 31 then
          let address := match place with
            | .address address => address
            | .symbol _ => 0x1000
          some (.breakpoint (some (t.lastNumber + 1, address)),
            t.withBreakpoint (t.lastNumber + 1) address)
        else some (.breakpoint none, t)
    | .deleteBreakpoint breakpointNum => some (.done, t.withoutBreakpoint breakpointNum)
    | .continue_ reverse =>
        match t.now with
        | none => some (.notRun, t)
        | some moment =>
            if reverse then
              match t.back t.past with
              | none => some (.output [noHistoryText], t)
              | some (now, past) =>
                  let t := { t with now := some now, past }
                  some (.output (if t.isBreakpoint now then t.report else [noHistoryText]), t)
            else
              let t := t.goOn way moment
              some (.output (if way.ends then [exitText] else t.report), t)
    | .run =>
        let t := { t with now := way.passed.head?, recording := false, past := [] }
        some (.output t.report, t)
    | .printPc => some (.value (t.now.map Moment.pc), t)
    | .record => some (.done, if t.recording then t else { t with recording := true, past := [] })
    | .recordStop => some (.done, { t with recording := false, past := [] })
    | command =>
        match t.now, t.recording with
        | some moment, false =>
            let (answer, memory) := apply command moment.memory
            some (answer, { t with now := some ⟨moment.pc, memory⟩ })
        | _, _ => some (.done, t)
  view := id
  passed _ way := way.passed

/-- What the memory is behind a command, and the answer. -/
def plainEffect (apply : TargetCommand → M → Answer × M) : Effect M :=
  fun command memory answer memory' => apply command memory = (answer, memory')

theorem plain_documented (apply : TargetCommand → M → Answer × M) :
    (plain apply).Documented chars (plainEffect apply) where
  setBreakpoint := by
    intro t way place answer t' h
    simp only [plain] at h
    split at h
    · next hint =>
        cases h
        refine .inr ⟨_, _, rfl, Nat.lt_succ_self _, hint, ?_, rfl⟩
        rintro a rfl
        rfl
    · cases h
      exact .inl ⟨rfl, rfl⟩
  deleteBreakpoint := by
    intro t way breakpointNum answer t' h
    cases h
    rfl
  notRun := by
    intro t way reverse answer t' h hnow
    change t.now = none at hnow
    simp only [plain, hnow] at h
    cases h
    exact ⟨rfl, rfl⟩
  continue_ := by
    intro t way answer t' moment h hnow
    change t.now = some moment at hnow
    simp only [plain, hnow] at h
    cases h
    change Target M at t
    by_cases hends : way.ends = true
    · rw [t.goOn_ends hends, if_pos hends]
      exact ⟨_, none, false, [], rfl, Target.exit_reports _ rfl, rfl, .inl ⟨rfl, rfl, rfl⟩⟩
    · rw [t.goOn_goes hends, if_neg hends]
      refine ⟨_, _, _, _, rfl, Target.report_reports _, rfl,
        .inr ⟨rfl, rfl, ?_, fun hrecording => if_neg (Bool.eq_false_iff.mp hrecording)⟩⟩
      split
      · exact List.prefix_refl _
      · exact List.nil_prefix
  reverseContinue := by
    intro t way answer t' moment h hnow
    change t.now = some moment at hnow
    simp only [plain, hnow, if_true] at h
    split at h
    · next hback =>
        cases h
        exact ⟨_, rfl, t.noHistory_reports hnow, .inl ⟨rfl, .inl (t.back_none hback)⟩⟩
    · next now past hback =>
        cases h
        obtain ⟨skipped, hpast, hskipped⟩ := t.back_some hback
        refine ⟨_, rfl, ?_, .inr ⟨skipped, now, past, hpast, hskipped, rfl⟩⟩
        split
        · exact Target.report_reports _
        · exact Target.noHistory_reports _ rfl
  run := by
    intro t way answer t' h
    cases h
    exact ⟨_, way.passed.head?, rfl, Target.report_reports _, rfl⟩
  printPc := by
    intro t way answer t' h
    cases h
    exact ⟨rfl, rfl⟩
  record := by
    intro t way answer t' h
    cases h
    cases hrecording : t.recording with
    | true => exact .inl rfl
    | false => exact .inr ⟨hrecording, rfl⟩
  recordStop := by
    intro t way answer t' h
    cases h
    rfl
  change := by
    intro t way command answer t' hchanges h
    have hcases : (∃ moment, t.now = some moment ∧ t.recording = false ∧
          apply command moment.memory = (answer, (apply command moment.memory).2) ∧
          t' = { t with now := some ⟨moment.pc, (apply command moment.memory).2⟩ }) ∨
        (t.now = none ∨ t.recording = true) ∧ t' = t := by
      cases command <;> cases hchanges
      all_goals
        simp only [plain] at h
        split at h
        · next moment hnow hrecording =>
            cases h
            exact .inl ⟨moment, hnow, hrecording, rfl, rfl⟩
        · next hnot =>
            cases h
            refine .inr ⟨?_, rfl⟩
            cases hnow : t.now with
            | none => exact .inl rfl
            | some moment =>
                exact .inr (Bool.eq_true_of_not_eq_false fun hrecording =>
                  hnot moment hnow hrecording)
    rcases hcases with ⟨moment, hnow, hrecording, happly, rfl⟩ | ⟨hnot, rfl⟩
    · refine ⟨rfl, rfl, fun other hother _ => ?_⟩
      change t.now = some other at hother
      rw [hnow] at hother
      cases hother
      exact ⟨_, happly, rfl⟩
    · refine ⟨rfl, rfl, fun other hother hrecording => ?_⟩
      change t'.now = some other at hother
      change t'.recording = false at hrecording
      rcases hnot with hnow | hnow
      · rw [hnow] at hother
        cases hother
      · rw [hnow] at hrecording
        cases hrecording

/-- A program that goes on has not ended. -/
theorem plain_goes {apply : TargetCommand → M → Answer × M} {t t' : Target M} {way : Way M}
    {answer : Answer} {moment : Moment M} (hnow : t.now = some moment) (hends : ¬way.ends = true)
    (h : (plain apply).execute t way (.continue_ false) = some (answer, t')) : t'.now ≠ none := by
  simp only [plain, hnow] at h
  cases h
  rw [t.goOn_goes hends]
  exact Option.some_ne_none _

end Debugger

end InMemoryFuzzing.Gdb

import InMemoryFuzzing.Gdb.DebugRuns

/-!
# Going back to the snapshot

`Went` — how far `Restore` has gone back over the record, and that it has not passed its
breakpoint. `Restoring` is kept by everything gdb executes while `Restore` waits, and after
(`Restoring.execute`); as long as the record does not begin at another breakpoint, there
are only so many commands left (`Restoring.left`).
-/

namespace InMemoryFuzzing.Gdb

open Base Platform DotNet

variable {M : Type} {chars : CharData} {gdb : Debugger M} {effect : Effect M}

/-- Where the program is, from a moment with `past` in front of it. -/
inductive Went (address : UInt64) (past : List (Moment M)) (begin : Moment M) (t : Target M) :
    Moment M → Prop
  | stayed (hnow : t.now = some begin) (hpast : t.past = past) : Went address past begin t begin
  | back {moment : Moment M} {skipped : List (Moment M)} (hnow : t.now = some moment)
      (hpast : past = skipped ++ moment :: t.past) (hskipped : ∀ m ∈ skipped, m.pc ≠ address) :
      Went address past begin t moment

namespace Went

variable {address : UInt64} {past : List (Moment M)} {begin moment : Moment M} {t t' : Target M}

theorem now (h : Went address past begin t moment) : t.now = some moment := by
  cases h with
  | stayed hnow hpast => exact hnow
  | back hnow hpast hskipped => exact hnow

theorem past_le (h : Went address past begin t moment) : t.past.length ≤ past.length := by
  cases h with
  | stayed hnow hpast => rw [hpast]
  | back hnow hpast hskipped =>
      rw [hpast, List.length_append, List.length_cons]
      omega

/-- With nothing left of the record, the program is where it begins. -/
theorem first (h : Went address past begin t moment) (hnothing : t.past = []) :
    moment = past.getLast?.getD begin := by
  cases h with
  | stayed hnow hpast =>
      rw [← hpast, hnothing]
      rfl
  | back hnow hpast hskipped =>
      rw [hpast, hnothing, List.getLast?_append, List.getLast?_singleton]
      rfl

/-- gdb goes back once more, over moments that are not at the address. -/
theorem further {now : Moment M} {skipped rest : List (Moment M)}
    (h : Went address past begin t moment) (haway : t.past ≠ past → moment.pc ≠ address)
    (hpast : t.past = skipped ++ now :: rest) (hskipped : ∀ m ∈ skipped, m.pc ≠ address)
    (hnow' : t'.now = some now) (hpast' : t'.past = rest) : Went address past begin t' now := by
  cases h with
  | stayed hnow hstayed =>
      refine .back hnow' ?_ hskipped
      rw [← hstayed, hpast, hpast']
  | @back moment before hnow hback hbefore =>
      have hmoved : t.past ≠ past := by
        intro hsame
        have hlength := congrArg List.length hback
        rw [List.length_append, List.length_cons, hsame] at hlength
        omega
      have hall : past = (before ++ moment :: skipped) ++ now :: t'.past := by
        rw [hback, hpast, hpast', List.append_assoc]
        rfl
      refine .back hnow' hall fun m hm => ?_
      rcases List.mem_append.mp hm with hm | hm
      · exact hbefore m hm
      · rcases List.mem_cons.mp hm with rfl | hm
        · exact haway hmoved
        · exact hskipped m hm

/-- It is the latest visit of the address. -/
theorem latest (h : Went address past begin t moment) (hat : moment.pc = address)
    (hmoved : t.past = past → past = []) :
    past.find? (fun m => m.pc = address) = some moment ∨ past = [] ∧ moment = begin := by
  cases h with
  | stayed hnow hpast => exact .inr ⟨hmoved hpast, rfl⟩
  | @back moment skipped hnow hpast hskipped =>
      refine .inl ?_
      have hnone : skipped.find? (fun m => m.pc = address) = none := by
        rw [List.find?_eq_none]
        intro m hm
        simpa using hskipped m hm
      rw [hpast, List.find?_append, hnone, Option.none_or, List.find?_cons_of_pos (by simpa using hat)]

end Went

/-- Where `Restore` is. -/
inductive RestorePhase
  | goingBack
  | asking
  /-- gdb has said nothing. -/
  | forEver
  | returned
  | raised
  deriving DecidableEq, Repr

def RestorePhase.call : RestorePhase → Option Call
  | .goingBack | .forEver => some (.stop true)
  | .asking => some (.pc true)
  | .returned | .raised => none

def RestorePhase.commands : RestorePhase → List TargetCommand
  | .goingBack => [.continue_ true]
  | .asking => [.printPc]
  | .forEver | .returned | .raised => []

/-- While `Restore` goes back to the breakpoint of the snapshot, and behind it. -/
structure Restoring (br : GDBBreakpoint) (table : Breakpoints) (past : List (Moment M))
    (begin : Moment M) (phase : RestorePhase) (moment : Moment M) (s : DebugSession M gdb) :
    Prop where
  stays : Stays s
  snapshot : s.snapshot = some (some br)
  table : s.breakpoints = table
  call : s.call = phase.call
  commands : s.commands = phase.commands
  went : Went br.address past begin (gdb.view s.target) moment
  away : phase = .goingBack → (gdb.view s.target).past ≠ past → moment.pc ≠ br.address
  moved : phase = .asking → (gdb.view s.target).past = past → past = []
  returned : phase = .returned → moment.pc = br.address ∧
    ((gdb.view s.target).past = past → past = [])
  raised : ∀ e, s.fault = some e → e = .nullReference ∧
    ∃ stop, s.lastDebuggerStop = some stop ∧ stop.breakpoint = none
  fault : phase = .raised → s.fault ≠ none

/-- How many commands gdb can still execute. -/
def RestorePhase.left (past : List (Moment M)) : RestorePhase → Nat
  | .goingBack => 2 * past.length + 2
  | .asking => if past = [] then 1 else 2 * past.length + 3
  | .forEver | .returned | .raised => 0

/-- The record does not begin at another breakpoint of the connector. -/
def BeginsAlone (br : GDBBreakpoint) (table : Breakpoints) (past : List (Moment M))
    (begin : Moment M) : Prop :=
  ∀ other ∈ table, other.address = (past.getLast?.getD begin).pc → other.address = br.address

namespace Restoring

variable {br : GDBBreakpoint} {table : Breakpoints} {past : List (Moment M)} {begin moment : Moment M}
  {phase : RestorePhase} {s s' : DebugSession M gdb} {stop : GdbStop}

/-- gdb has stopped somewhere, and `Restore` looks whether this is the address. -/
theorem continued (hstays : Stays (s.continued true stop)) (hsnapshot : s.snapshot = some (some br))
    (htable : s.breakpoints = table) (hcommands : s.commands = []) (hfault : s.fault = none)
    (hwent : Went br.address past begin (gdb.view s.target) moment)
    (hmoved : (gdb.view s.target).past = past → past = [])
    (hnames : Names s.breakpoints (gdb.view s.target).now stop)
    (haddress : stop.address = (gdb.view s.target).address) :
    ∃ phase, Restoring br table past begin phase moment (s.continued true stop) ∧
      phase.left (gdb.view (s.continued true stop).target).past ≤
        2 * (gdb.view s.target).past.length + 2 ∧
      (gdb.view (s.continued true stop).target) = gdb.view s.target ∧
      (phase = .goingBack ∨ phase = .returned ∨ phase = .raised) ∧
      (phase = .goingBack → BeginsAlone br table past begin → (gdb.view s.target).past ≠ []) := by
  obtain ⟨full, hright, hcases⟩ := continued_cases s true hnames haddress
  have hnow := hwent.now
  have hat : ∀ other, full.breakpoint = some other →
      other ∈ s.breakpoints ∧ other.address = moment.pc := by
    intro other hother
    obtain ⟨hmem, found, hfound, haddress⟩ := hright.names.known other hother
    rw [hnow] at hfound
    cases hfound
    exact ⟨hmem, haddress⟩
  rcases hcases with ⟨heq, hsame⟩ | ⟨-, heq, hnull⟩ | ⟨-, heq, other, myBreakpoint, hother, hmine, hne⟩
  · obtain ⟨other, myBreakpoint, hother, hmine, hsame⟩ := hsame rfl
    rw [hsnapshot] at hmine
    cases hmine
    rw [heq] at hstays ⊢
    refine ⟨.returned, ⟨hstays, hsnapshot, htable, rfl, hcommands, hwent, fun h => (by cases h),
      fun h => (by cases h), fun _ => ⟨(hat other hother).2.symm.trans hsame, hmoved⟩,
      fun e he => ?_, fun h => (by cases h)⟩, Nat.zero_le _, rfl, .inr (.inl rfl),
      fun h => (by cases h)⟩
    change s.fault = some e at he
    rw [hfault] at he
    cases he
  · have hnone : full.breakpoint = none := hnull.resolve_right fun hnot => hnot br hsnapshot
    rw [heq] at hstays ⊢
    refine ⟨.raised, ⟨hstays, hsnapshot, htable, rfl, hcommands, hwent, fun h => (by cases h),
      fun h => (by cases h), fun h => (by cases h), fun e he => ?_, fun _ => Option.some_ne_none _⟩,
      Nat.zero_le _, rfl, .inr (.inr rfl), fun h => (by cases h)⟩
    cases he
    exact ⟨rfl, full, rfl, hnone⟩
  · rw [hsnapshot] at hmine
    cases hmine
    obtain ⟨hmem, hfound⟩ := hat other hother
    rw [heq] at hstays ⊢
    refine ⟨.goingBack, ⟨hstays, hsnapshot, htable, rfl, ?_, hwent, fun _ _ => ?_,
      fun h => (by cases h), fun h => (by cases h), fun e he => ?_, fun h => (by cases h)⟩,
      Nat.le_refl _, rfl, .inl rfl, fun _ halone hnothing => ?_⟩
    · show s.commands ++ [.continue_ true] = [.continue_ true]
      rw [hcommands]
      rfl
    · rw [← hfound]
      exact hne
    · change s.fault = some e at he
      rw [hfault] at he
      cases he
    · refine hne (halone other (htable ▸ hmem) ?_)
      rw [hfound, hwent.first hnothing]

/-- gdb has executed `reverse-continue`. -/
theorem reversed (hgdb : gdb.Documented chars effect)
    (h : Restoring br table past begin .goingBack moment s) {choice : gdb.Choice} {answer : Answer}
    {target : gdb.State}
    (hexecute : gdb.execute s.target choice (.continue_ true) = some (answer, target)) :
    ∃ lines moment', answer = .output lines ∧
      Went br.address past begin (gdb.view target) moment' ∧
      ((¬∀ line ∈ lines, Unclaimed chars line) →
        ((gdb.view target).past = past → past = []) ∧
        ((gdb.view target).past.length < (gdb.view s.target).past.length ∨
          (gdb.view s.target).past = [] ∧ (gdb.view target).past = [])) := by
  obtain ⟨lines, hanswer, -, hcases⟩ := hgdb.reverseContinue hexecute h.went.now
  have hbreakpoint : ∀ m, (gdb.view s.target).isBreakpoint m = false → m.pc ≠ br.address := by
    have hinStep := h.stays.inStep
    rw [h.commands] at hinStep
    intro m hm hpc
    have hhere := (hinStep.isBreakpoint_iff m).mpr ⟨br, h.stays.snapshot br h.snapshot, hpc.symm⟩
    rw [hm] at hhere
    cases hhere
  rcases hcases with ⟨hview, hstayed⟩ | ⟨skipped, now, rest, hpast, hskipped, hview⟩
  · refine ⟨lines, moment, hanswer, by rw [hview]; exact h.went, fun hsaid => ?_⟩
    have hnothing := hstayed.resolve_right hsaid
    rw [hview]
    exact ⟨fun hsame => hsame.symm.trans hnothing, .inr ⟨hnothing, hnothing⟩⟩
  · have hfurther : Went br.address past begin (gdb.view target) now := by
      refine h.went.further (h.away rfl) hpast (fun m hm => hbreakpoint m (hskipped m hm)) ?_ ?_
      · rw [hview]
      · rw [hview]
    have hless : rest.length < (gdb.view s.target).past.length := by
      rw [hpast, List.length_append, List.length_cons]
      omega
    refine ⟨lines, now, hanswer, hfurther, fun _ => ?_⟩
    rw [hview]
    refine ⟨fun hsame => ?_, .inl hless⟩
    have hle := h.went.past_le
    change rest = past at hsame
    rw [hsame] at hless
    omega

/-- Where `Restore` is behind a command, and how many more there can be. -/
def Next (br : GDBBreakpoint) (table : Breakpoints) (past : List (Moment M)) (begin : Moment M)
    (left : Nat) (s : DebugSession M gdb) : Prop :=
  ∃ phase moment, Restoring br table past begin phase moment s ∧
    (BeginsAlone br table past begin → phase.left (gdb.view s.target).past < left)

/-- gdb has said where the program is, and `Restore` may go on. -/
theorem next_continued (hstays : Stays (s.continued true stop))
    (hsnapshot : s.snapshot = some (some br)) (htable : s.breakpoints = table)
    (hcommands : s.commands = []) (hfault : s.fault = none)
    (hwent : Went br.address past begin (gdb.view s.target) moment)
    (hmoved : (gdb.view s.target).past = past → past = [])
    (hnames : Names s.breakpoints (gdb.view s.target).now stop)
    (haddress : stop.address = (gdb.view s.target).address) {left : Nat} (hleft : 0 < left)
    (hmore : (gdb.view s.target).past ≠ [] → 2 * (gdb.view s.target).past.length + 2 < left) :
    Next br table past begin left (s.continued true stop) := by
  obtain ⟨phase, hrestoring, -, hview, hphase, hbegins⟩ :=
    continued hstays hsnapshot htable hcommands hfault hwent hmoved hnames haddress
  refine ⟨phase, moment, hrestoring, fun halone => ?_⟩
  rw [hview]
  rcases hphase with rfl | rfl | rfl
  · exact hmore (hbegins rfl halone)
  · exact hleft
  · exact hleft

/-- gdb executes a command. -/
theorem execute (hchars : chars.Ascii) (hgdb : gdb.Documented chars effect)
    (h : Restoring br table past begin phase moment s) {choice : gdb.Choice}
    (hstep : s.step chars (.execute choice) = some s') :
    Next br table past begin (phase.left (gdb.view s.target).past) s' := by
  have hstays : Stays s' := h.stays.step hchars hgdb hstep
  have hexecuted := h.stays.executed hchars hgdb hstep
  cases phase with
  | goingBack =>
      have hcommands : s.commands = [.continue_ true] := h.commands
      have hcall : s.call = some (.stop true) := h.call
      have hfault : s.fault = none := h.stays.no_fault (by simp [hcall])
      cases hexecuted with
      | calm hothers hcalm hqueued hexecute =>
          rw [hcommands] at hothers
          cases hothers
          cases hcalm
      | breakpoint hcall' hothers hawaits hexecute =>
          rw [hcommands] at hothers
          cases hothers
      | notRun hcall' hothers hexecute =>
          rw [hcommands] at hothers
          cases hothers
          obtain ⟨lines, moment', hanswer, -⟩ := h.reversed hgdb hexecute
          cases hanswer
      | @silent waiting command answer target hcall' hunsure hothers hawaits hexecute hvalue =>
          rw [hcommands] at hothers
          cases hothers
          obtain ⟨lines, moment', -, hwent, -⟩ := h.reversed hgdb hexecute
          exact ⟨.forEver, moment', ⟨hstays, h.snapshot, h.table, hcall, rfl, hwent,
            fun hphase => (by cases hphase), fun hphase => (by cases hphase),
            fun hphase => (by cases hphase), h.raised, fun hphase => (by cases hphase)⟩,
            fun _ => Nat.succ_pos _⟩
      | @stopped restoring command lines target stop hcall' hothers hawaits hexecute hsaid hnames
          haddress =>
          rw [hcommands] at hothers
          cases hothers
          rw [hcall] at hcall'
          cases hcall'
          obtain ⟨lines, moment', hanswer, hwent, hmore⟩ := h.reversed hgdb hexecute
          cases hanswer
          obtain ⟨hmoved, hless⟩ := hmore hsaid
          have hcall'' : (s.after target).call = some (.stop true) := hcall
          simp only [DebugSession.gdbStopped, hcall''] at hstays ⊢
          split at hstays
          · next hzero =>
              rw [if_pos hzero]
              refine ⟨.asking, moment', ⟨hstays, h.snapshot, h.table, rfl, rfl, hwent,
                fun hphase => (by cases hphase), fun _ => hmoved, fun hphase => (by cases hphase),
                fun e he => ?_, fun hphase => (by cases hphase)⟩, fun _ => ?_⟩
              · change s.fault = some e at he
                rw [hfault] at he
                cases he
              · show RestorePhase.left (gdb.view target).past .asking < 2 * _ + 2
                rw [RestorePhase.left]
                split
                · omega
                · next hne =>
                    have hpos := List.length_pos_iff.mpr hne
                    rcases hless with hless | ⟨-, hnothing⟩
                    · omega
                    · exact absurd hnothing hne
          · next hne =>
              rw [if_neg hne]
              refine next_continued (s := { s.after target with lastDebuggerStop := some stop })
                hstays h.snapshot h.table rfl hfault hwent hmoved hnames (haddress.resolve_left hne)
                (Nat.succ_pos _) fun hsome => ?_
              show 2 * (gdb.view target).past.length + 2 < 2 * _ + 2
              rcases hless with hless | ⟨-, hnothing⟩
              · omega
              · exact absurd hnothing hsome
      | printed hcall' hothers hexecute hnames haddress =>
          rw [hcommands] at hothers
          cases hothers
      | written hcall' hothers hexecute =>
          rw [hcommands] at hothers
          cases hothers
      | allocated hcall' hothers hexecute =>
          rw [hcommands] at hothers
          cases hothers
  | asking =>
      have hcommands : s.commands = [.printPc] := h.commands
      have hcall : s.call = some (.pc true) := h.call
      have hfault : s.fault = none := h.stays.no_fault (by simp [hcall])
      cases hexecuted with
      | calm hothers hcalm hqueued hexecute =>
          rw [hcommands] at hothers
          cases hothers
          cases hcalm
      | breakpoint hcall' hothers hawaits hexecute =>
          rw [hcommands] at hothers
          cases hothers
      | notRun hcall' hothers hexecute =>
          rw [hcommands] at hothers
          cases hothers
      | silent hcall' hunsure hothers hawaits hexecute hvalue =>
          rw [hcall] at hcall'
          cases hcall'
          cases hunsure
      | stopped hcall' hothers hawaits hexecute hsaid hnames haddress =>
          rw [hcall] at hcall'
          cases hcall'
      | @printed restoring stop answer target hcall' hothers hexecute hnames haddress =>
          rw [hcall] at hcall'
          cases hcall'
          obtain ⟨-, hview⟩ := hgdb.printPc hexecute
          have hwent : Went br.address past begin (gdb.view target) moment := by
            rw [hview]
            exact h.went
          refine next_continued (s := s.after target) hstays h.snapshot h.table rfl hfault hwent
            ?_ hnames haddress ?_ fun hsome => ?_
          · rw [DebugSession.after, hview]
            exact h.moved rfl
          · rw [RestorePhase.left]
            split <;> omega
          · rw [DebugSession.after, hview] at hsome ⊢
            rw [RestorePhase.left, if_neg hsome]
            omega
      | written hcall' hothers hexecute =>
          rw [hcommands] at hothers
          cases hothers
      | allocated hcall' hothers hexecute =>
          rw [hcommands] at hothers
          cases hothers
  | _ =>
      have hcommands : s.commands = [] := h.commands
      rw [DebugSession.step, hcommands] at hstep
      cases hstep

/-- Everything that gdb executes while `Restore` waits. -/
theorem exec (hchars : chars.Ascii) (hgdb : gdb.Documented chars effect) {target : gdb.State}
    {acts : List (DebugAct M gdb)} (h : Restoring br table past begin phase moment s)
    (hacts : ∀ a ∈ acts, ∃ choice, a = .execute choice)
    (hrun : (debugSystem chars gdb target).exec s acts = some s') :
    ∃ phase' moment', Restoring br table past begin phase' moment' s' ∧
      (BeginsAlone br table past begin →
        acts.length + phase'.left (gdb.view s'.target).past ≤
          phase.left (gdb.view s.target).past) := by
  induction acts generalizing phase moment s with
  | nil =>
      cases hrun
      exact ⟨phase, moment, h, fun _ => by simp⟩
  | cons a acts ih =>
      obtain ⟨s₁, hstep, hrest⟩ := Option.bind_eq_some_iff.mp hrun
      obtain ⟨⟨choice, rfl⟩, hothers⟩ := List.forall_mem_cons.mp hacts
      obtain ⟨phase₁, moment₁, h₁, hless⟩ := h.execute hchars hgdb hstep
      obtain ⟨phase', moment', h', hle⟩ := ih h₁ hothers hrest
      refine ⟨phase', moment', h', fun halone => ?_⟩
      have hone := hless halone
      have hall := hle halone
      rw [List.length_cons]
      omega

/-- `Restore` is the only one that waits. -/
theorem start (hstays : Stays s) (hcall : s.call = some (.stop true))
    (hcommands : s.commands = [.continue_ true]) (hsnapshot : s.snapshot = some (some br))
    (hnow : (gdb.view s.target).now = some moment) :
    Restoring br s.breakpoints (gdb.view s.target).past moment .goingBack moment s where
  stays := hstays
  snapshot := hsnapshot
  table := rfl
  call := hcall
  commands := hcommands
  went := .stayed hnow rfl
  away _ hmoved := absurd rfl hmoved
  moved hphase := by cases hphase
  returned hphase := by cases hphase
  raised e he := by
    rw [hstays.no_fault (by simp [hcall])] at he
    cases he
  fault hphase := by cases hphase

end Restoring

end InMemoryFuzzing.Gdb

import InMemoryFuzzing.Gdb.DebugRuns

/-!
# What going back undoes

`Undone` — a snapshot was made at an address, with a memory, and wherever the program is there
again, now or in the record, it has that memory; without a snapshot it is there. gdb keeps it
with whatever it executes (`Undone.ran`), with another memory behind a command that changes it, as
long as the program does not come to the address by itself.
-/

namespace InMemoryFuzzing.Gdb

open Base Platform DotNet

variable {M : Type} {chars : CharData} {gdb : Debugger M} {effect : Effect M}

/-! ## The record behind the queue -/

/-- Whether gdb records behind a command, if `record` is not refused. -/
def TargetCommand.records (recording : Bool) : TargetCommand → Bool
  | .record => true
  | .recordStop => false
  | _ => recording

def recordsAfter (recording : Bool) (commands : List TargetCommand) : Bool :=
  commands.foldl TargetCommand.records recording

/-- When the memory is changed nothing is recorded. -/
def Unrecorded (recording : Bool) : List TargetCommand → Prop
  | [] => True
  | command :: rest =>
      (command.changes = true → recording = false) ∧ Unrecorded (command.records recording) rest

theorem TargetCommand.records_mono {less more : Bool} (h : less = true → more = true)
    (command : TargetCommand) :
    command.records less = true → command.records more = true := by
  cases command with
  | record => exact id
  | recordStop => exact id
  | _ => exact h

theorem recordsAfter_mono {less more : Bool} (h : less = true → more = true)
    (commands : List TargetCommand) :
    recordsAfter less commands = true → recordsAfter more commands = true := by
  induction commands generalizing less more with
  | nil => exact h
  | cons command rest ih => exact ih (command.records_mono h)

theorem recordsAfter_concat (recording : Bool) (commands : List TargetCommand)
    (command : TargetCommand) : recordsAfter recording (commands ++ [command]) =
      command.records (recordsAfter recording commands) := by
  rw [recordsAfter, List.foldl_append]
  rfl

theorem Unrecorded.mono {less more : Bool} (h : less = true → more = true)
    {commands : List TargetCommand} (hcommands : Unrecorded more commands) :
    Unrecorded less commands := by
  induction commands generalizing less more with
  | nil => trivial
  | cons command rest ih =>
      refine ⟨fun hchanges => ?_, ih (command.records_mono h) hcommands.2⟩
      have hmore := hcommands.1 hchanges
      exact Bool.eq_false_iff.mpr fun hless => Bool.eq_false_iff.mp hmore (h hless)

theorem Unrecorded.concat {recording : Bool} {commands : List TargetCommand}
    {command : TargetCommand} (h : Unrecorded recording commands)
    (hchanges : command.changes = true → recordsAfter recording commands = false) :
    Unrecorded recording (commands ++ [command]) := by
  induction commands generalizing recording with
  | nil => exact ⟨hchanges, trivial⟩
  | cons first rest ih => exact ⟨h.1, ih h.2 hchanges⟩

/-! ## What gdb does -/

/-- The program stays where it is, with the memory that it has. -/
def TargetCommand.still : TargetCommand → Bool
  | .setBreakpoint _ => true
  | .deleteBreakpoint _ => true
  | .printPc => true
  | .record => true
  | .recordStop => true
  | _ => false

/-- Wherever the program is at the address, or was, it has this memory. -/
structure Visits (a : UInt64) (m : M) (t : Target M) : Prop where
  running : t.now ≠ none
  now : ∀ moment, t.now = some moment → moment.pc = a → moment = ⟨a, m⟩
  past : ∀ moment ∈ t.past, moment.pc = a → moment = ⟨a, m⟩
  nothing : t.recording = false → t.past = []

/-- The program is there, or gdb knows how to get back there. -/
def Target.Passes (t : Target M) (moment : Moment M) : Prop :=
  t.now = some moment ∨ moment ∈ t.past

/-- Where the program can be now it was before, or is not at the address. -/
theorem Visits.of_subset {a : UInt64} {m : M} {t t' : Target M} (h : Visits a m t)
    (hruns : t'.now ≠ none)
    (hfrom : ∀ moment, t'.Passes moment → moment.pc ≠ a ∨ t.Passes moment)
    (hnothing : t'.recording = false → t'.past = []) : Visits a m t' := by
  have hmoments : ∀ moment, t'.Passes moment → moment.pc = a → moment = ⟨a, m⟩ := by
    intro moment hmoment hpc
    rcases hfrom moment hmoment with hother | hnow | hpast
    · exact absurd hpc hother
    · exact h.now moment hnow hpc
    · exact h.past moment hpast hpc
  exact ⟨hruns, fun moment hnow => hmoments moment (.inl hnow),
    fun moment hpast => hmoments moment (.inr hpast), hnothing⟩

namespace Debugger.Documented

variable (h : gdb.Documented chars effect) {g g' : gdb.State} {χ : gdb.Choice} {answer : Answer}
  {command : TargetCommand}
include h

/-- A command that leaves the program where it is. -/
theorem stays (hexecute : gdb.execute g χ command = some (answer, g'))
    (hstill : command.still = true) :
    (gdb.view g').now = (gdb.view g).now ∧
      ((gdb.view g').recording = true → command.records (gdb.view g).recording = true) ∧
      ((gdb.view g').recording = (gdb.view g).recording ∧ (gdb.view g').past = (gdb.view g).past ∨
        (gdb.view g').past = []) := by
  cases command with
  | setBreakpoint place =>
      rcases h.setBreakpoint hexecute with ⟨-, hview⟩ | ⟨num, address, -, -, -, -, hview⟩
      · rw [hview]
        exact ⟨rfl, id, .inl ⟨rfl, rfl⟩⟩
      · rw [hview]
        exact ⟨rfl, id, .inl ⟨rfl, rfl⟩⟩
  | deleteBreakpoint breakpointNum =>
      rw [h.deleteBreakpoint hexecute]
      exact ⟨rfl, id, .inl ⟨rfl, rfl⟩⟩
  | printPc =>
      rw [(h.printPc hexecute).2]
      exact ⟨rfl, id, .inl ⟨rfl, rfl⟩⟩
  | record =>
      rcases h.record hexecute with hview | ⟨-, hview⟩
      · rw [hview]
        exact ⟨rfl, fun _ => rfl, .inl ⟨rfl, rfl⟩⟩
      · rw [hview]
        exact ⟨rfl, fun _ => rfl, .inr rfl⟩
  | recordStop =>
      rw [h.recordStop hexecute]
      exact ⟨rfl, id, .inr rfl⟩
  | _ => cases hstill

theorem visits_still {a : UInt64} {m : M} (hvisits : Visits a m (gdb.view g))
    (hexecute : gdb.execute g χ command = some (answer, g')) (hstill : command.still = true) :
    Visits a m (gdb.view g') := by
  obtain ⟨hnow, -, hpast⟩ := h.stays hexecute hstill
  refine hvisits.of_subset ?_ (fun moment hmoment => ?_) fun hnothing => ?_
  · rw [hnow]
    exact hvisits.running
  · rw [Target.Passes, hnow] at hmoment
    rcases hpast with ⟨-, hpast⟩ | hpast
    · rw [hpast] at hmoment
      exact .inr hmoment
    · rw [hpast] at hmoment
      exact .inr (.inl (hmoment.resolve_right List.not_mem_nil))
  · rcases hpast with ⟨hrecording, hpast⟩ | hpast
    · rw [hpast]
      exact hvisits.nothing (hrecording.symm.trans hnothing)
    · exact hpast

/-- A command that changes the memory, while nothing is recorded. -/
theorem visits_change {a : UInt64} {m : M} (hvisits : Visits a m (gdb.view g))
    (hexecute : gdb.execute g χ command = some (answer, g')) (hchanges : command.changes = true)
    (hat : (gdb.view g).now = some ⟨a, m⟩) (hrecording : (gdb.view g).recording = false) :
    ∃ memory, effect command m answer memory ∧ Visits a memory (gdb.view g') ∧
      (gdb.view g').now = some ⟨a, memory⟩ ∧ (gdb.view g').recording = false := by
  obtain ⟨-, -, hchange⟩ := h.change hchanges hexecute
  obtain ⟨memory, heffect, hview⟩ := hchange ⟨a, m⟩ hat hrecording
  have hnothing := hvisits.nothing hrecording
  refine ⟨memory, heffect, ⟨?_, fun moment hmoment _ => ?_, fun moment hmoment => ?_, fun _ => ?_⟩,
    ?_, ?_⟩ <;> rw [hview] at *
  · exact Option.some_ne_none _
  · exact (Option.some.inj hmoment).symm
  · change moment ∈ (gdb.view g).past at hmoment
    rw [hnothing] at hmoment
    cases hmoment
  · exact hnothing
  · exact hrecording

/-- The program goes on, and does not come to the address. -/
theorem visits_forward {a : UInt64} {m : M} (hvisits : Visits a m (gdb.view g))
    (hexecute : gdb.execute g χ (.continue_ false) = some (answer, g'))
    (hpassed : ∀ moment ∈ gdb.passed g χ, moment.pc ≠ a) (hruns : (gdb.view g').now ≠ none) :
    answer ≠ .notRun ∧ Visits a m (gdb.view g') ∧
      ((gdb.view g').recording = true → (gdb.view g).recording = true) := by
  obtain ⟨moment, hnow⟩ := Option.ne_none_iff_exists'.mp hvisits.running
  obtain ⟨lines, now, recording, past, rfl, -, hview, hcases⟩ := h.continue_ hexecute hnow
  rw [hview] at hruns ⊢
  rcases hcases with ⟨hends, -⟩ | ⟨hgoes, hrecording, hpast, hnothing⟩
  · exact absurd hends hruns
  · have hfrom : ∀ other ∈ gdb.passed g χ ++ moment :: (gdb.view g).past,
        other.pc ≠ a ∨ (gdb.view g).Passes other := by
      intro other hother
      rcases List.mem_append.mp hother with hother | hother
      · exact .inl (hpassed other hother)
      · rcases List.mem_cons.mp hother with rfl | hother
        · exact .inr (.inl hnow)
        · exact .inr (.inr hother)
    refine ⟨by simp, hvisits.of_subset hruns (fun other hother => hfrom other ?_) hnothing, ?_⟩
    · rcases hother with hother | hother
      · have hlast : other = (gdb.passed g χ).getLastD moment :=
          Option.some.inj (hother.symm.trans hgoes)
        rw [hlast]
        cases hlist : gdb.passed g χ with
        | nil => exact List.mem_cons_self
        | cons first rest =>
            rw [List.getLastD_cons]
            exact List.mem_append_left _ List.getLastD_mem_cons
      · rcases List.mem_append.mp (List.mem_of_mem_tail (hpast.subset hother)) with hlater | hbefore
        · exact List.mem_append_left _ (List.mem_reverse.mp hlater)
        · exact List.mem_append_right _ hbefore
    · rw [hrecording]
      exact id

/-- gdb goes back. -/
theorem visits_reverse {a : UInt64} {m : M} (hvisits : Visits a m (gdb.view g))
    (hexecute : gdb.execute g χ (.continue_ true) = some (answer, g')) :
    answer ≠ .notRun ∧ Visits a m (gdb.view g') ∧
      ((gdb.view g').recording = true → (gdb.view g).recording = true) := by
  obtain ⟨moment, hnow⟩ := Option.ne_none_iff_exists'.mp hvisits.running
  obtain ⟨lines, rfl, -, ⟨hview, -⟩ | ⟨skipped, now, past, hpast, -, hview⟩⟩ :=
    h.reverseContinue hexecute hnow
  · rw [hview]
    exact ⟨by simp, hvisits, id⟩
  · have hbefore : ∀ other ∈ now :: past, other ∈ (gdb.view g).past := by
      rw [hpast]
      exact fun other hother => List.mem_append_right _ hother
    rw [hview]
    refine ⟨by simp, hvisits.of_subset (Option.some_ne_none _) (fun other hother => ?_)
      fun hnothing => ?_, id⟩
    · rcases hother with hother | hother
      · cases hother
        exact .inr (.inr (hbefore now List.mem_cons_self))
      · exact .inr (.inr (hbefore other (List.mem_cons_of_mem _ hother)))
    · have hnone := hvisits.nothing hnothing
      rw [hpast] at hnone
      simp at hnone

theorem visits_continue {a : UInt64} {m : M} {reverse : Bool} (hvisits : Visits a m (gdb.view g))
    (hexecute : gdb.execute g χ (.continue_ reverse) = some (answer, g'))
    (haway : reverse = false →
      (∀ moment ∈ gdb.passed g χ, moment.pc ≠ a) ∧ (gdb.view g').now ≠ none) :
    answer ≠ .notRun ∧ Visits a m (gdb.view g') ∧
      ((gdb.view g').recording = true → (gdb.view g).recording = true) := by
  cases reverse with
  | false =>
      obtain ⟨hpassed, hruns⟩ := haway rfl
      exact h.visits_forward hvisits hexecute hpassed hruns
  | true => exact h.visits_reverse hvisits hexecute

end Debugger.Documented

/-! ## The session -/

/-- What can be in the queue with a snapshot, and what without. -/
def TargetCommand.fits (snapshot : Bool) : TargetCommand → Bool
  | .continue_ _ => snapshot
  | .run => false
  | .restore _ _ => !snapshot
  | .malloc _ => !snapshot
  | .free _ => !snapshot
  | _ => true

/-- What can be waited for. -/
def DebugSession.Waits (a : UInt64) (s : DebugSession M gdb) : Prop :=
  ∀ call, s.call = some call →
    call = .createSnapshot a ∧ s.snapshot = none ∨
    (call = .writeMemory ∨ call = .allocateMemory) ∧ s.snapshot = none ∨
    (∃ restoring, call = .stop restoring ∨ call = .pc restoring) ∧ s.snapshot ≠ none

/-- The program is at the address, with this memory, and the last stop was there. -/
structure DebugSession.At (a : UInt64) (m : M) (s : DebugSession M gdb) : Prop where
  now : (gdb.view s.target).now = some ⟨a, m⟩
  stop : ∃ stop, s.lastDebuggerStop = some stop ∧ stop.address = a

structure Undone (a : UInt64) (m : M) (s : DebugSession M gdb) : Prop where
  visits : Visits a m (gdb.view s.target)
  unrecorded : Unrecorded (gdb.view s.target).recording s.commands
  without : s.snapshot = none →
    recordsAfter (gdb.view s.target).recording s.commands = false ∧ s.At a m
  breakpoint : ∀ br, s.snapshot = some (some br) → br.address = a
  queue : ∀ c ∈ s.commands, c.fits s.snapshot.isSome = true
  waits : s.Waits a

/-- The program does not come to the address by itself, and does not end. -/
def DebugSession.StaysAway (a : UInt64) (s : DebugSession M gdb) (χ : gdb.Choice) : Prop :=
  ∀ rest, s.commands = .continue_ false :: rest →
    (∀ moment ∈ gdb.passed s.target χ, moment.pc ≠ a) ∧
    ∀ answer target, gdb.execute s.target χ (.continue_ false) = some (answer, target) →
      (gdb.view target).now ≠ none

/-- What a command makes of the memory at the address. -/
def Became (effect : Effect M) (a : UInt64) (command : TargetCommand) (answer : Answer)
    (t t' : Target M) (m m' : M) : Prop :=
  command.changes = false ∧ m' = m ∨
    command.changes = true ∧ effect command m answer m' ∧ t.now = some ⟨a, m⟩ ∧
      t'.now = some ⟨a, m'⟩

theorem TargetCommand.fits_of_calm {command : TargetCommand} (hcalm : command.calm = true) :
    command.fits false = true := by
  cases command <;> first | rfl | cases hcalm

theorem TargetCommand.without_of_changes {command : TargetCommand} {snapshot : Bool}
    (hfits : command.fits snapshot = true) (hchanges : command.changes = true) :
    snapshot = false := by
  cases command <;> cases hchanges <;> simpa [TargetCommand.fits] using hfits

/-- What it is that gdb executes. -/
theorem TargetCommand.cases_of_fits {command : TargetCommand} {snapshot : Bool}
    (hfits : command.fits snapshot = true) :
    command.still = true ∧ command.changes = false ∨
      command.changes = true ∧ snapshot = false ∨
      (∃ reverse, command = .continue_ reverse) ∧ snapshot = true := by
  cases command with
  | continue_ reverse => exact .inr (.inr ⟨⟨reverse, rfl⟩, hfits⟩)
  | run => cases hfits
  | restore data address => exact .inr (.inl ⟨rfl, by simpa [TargetCommand.fits] using hfits⟩)
  | malloc size => exact .inr (.inl ⟨rfl, by simpa [TargetCommand.fits] using hfits⟩)
  | free address => exact .inr (.inl ⟨rfl, by simpa [TargetCommand.fits] using hfits⟩)
  | _ => exact .inl ⟨rfl, rfl⟩

namespace Undone

variable {a : UInt64} {m : M} {s s' : DebugSession M gdb}

/-- gdb has executed the next command; what becomes of the answer is another matter. -/
theorem ran (h : Undone a m s) (hgdb : gdb.Documented chars effect) {χ : gdb.Choice}
    {command : TargetCommand} {rest : List TargetCommand} {answer : Answer} {target : gdb.State}
    (haway : s.StaysAway a χ) (hcommands : s.commands = command :: rest)
    (hexecute : gdb.execute s.target χ command = some (answer, target)) :
    ∃ m', Became effect a command answer (gdb.view s.target) (gdb.view target) m m' ∧
      Undone a m' { s with commands := rest, target } ∧
      (s.At a m → ¬(∃ reverse, command = .continue_ reverse) →
        DebugSession.At a m' { s with commands := rest, target }) := by
  have hqueue := h.queue
  rw [hcommands, List.forall_mem_cons] at hqueue
  obtain ⟨hfits, hrest⟩ := hqueue
  have hunrecorded := h.unrecorded
  rw [hcommands] at hunrecorded
  have hwithout := h.without
  rw [hcommands] at hwithout
  rcases command.cases_of_fits hfits with ⟨hstill, hchanges⟩ | ⟨hchanges, hsnapshot⟩ |
    ⟨⟨reverse, rfl⟩, hsnapshot⟩
  · obtain ⟨hnow, hrecords, -⟩ := hgdb.stays hexecute hstill
    have hat : s.At a m → DebugSession.At a m { s with commands := rest, target } :=
      fun hat => ⟨hnow.trans hat.now, hat.stop⟩
    refine ⟨m, .inl ⟨hchanges, rfl⟩, ⟨hgdb.visits_still h.visits hexecute hstill,
      hunrecorded.2.mono hrecords, fun hnone => ?_, h.breakpoint, hrest, h.waits⟩,
      fun hhere _ => hat hhere⟩
    obtain ⟨hstops, hhere⟩ := hwithout hnone
    refine ⟨Bool.eq_false_iff.mpr fun hmore => ?_, hat hhere⟩
    exact Bool.eq_false_iff.mp hstops (recordsAfter_mono hrecords rest hmore)
  · have hnone : s.snapshot = none := by simpa using hsnapshot
    obtain ⟨hstops, hhere⟩ := hwithout hnone
    have hrecording := hunrecorded.1 hchanges
    obtain ⟨memory, heffect, hvisits, hnow, hrecording'⟩ :=
      hgdb.visits_change h.visits hexecute hchanges hhere.now hrecording
    have hsame : command.records (gdb.view s.target).recording = (gdb.view target).recording := by
      rw [hrecording, hrecording']
      cases command <;> first | rfl | cases hchanges
    have hat : DebugSession.At a memory { s with commands := rest, target } := ⟨hnow, hhere.stop⟩
    refine ⟨memory, .inr ⟨hchanges, heffect, hhere.now, hnow⟩, ⟨hvisits, ?_, fun _ => ⟨?_, hat⟩,
      h.breakpoint, hrest, h.waits⟩, fun _ _ => hat⟩
    · rw [← hsame]
      exact hunrecorded.2
    · rw [← hsame]
      exact hstops
  · obtain ⟨-, hvisits, hrecords⟩ := hgdb.visits_continue h.visits hexecute fun hforward => by
      subst hforward
      obtain ⟨hpassed, hruns⟩ := haway rest hcommands
      exact ⟨hpassed, hruns answer target hexecute⟩
    have hsome : s.snapshot ≠ none := Option.isSome_iff_ne_none.mp hsnapshot
    exact ⟨m, .inl ⟨rfl, rfl⟩, ⟨hvisits, hunrecorded.2.mono hrecords,
      fun hnone => absurd hnone hsome, h.breakpoint, hrest, h.waits⟩,
      fun _ hnot => absurd ⟨reverse, rfl⟩ hnot⟩

/-- The call is another one, or none. -/
theorem of_call (h : Undone a m s) (hcommands : s'.commands = s.commands)
    (htarget : s'.target = s.target) (hsnapshot : s'.snapshot = s.snapshot)
    (hstop : s.snapshot = none → s'.lastDebuggerStop = s.lastDebuggerStop) (hwaits : s'.Waits a) :
    Undone a m s' := by
  refine ⟨?_, ?_, fun hnone => ?_, ?_, ?_, hwaits⟩
  · rw [htarget]
    exact h.visits
  · rw [htarget, hcommands]
    exact h.unrecorded
  · rw [hsnapshot] at hnone
    obtain ⟨hstops, hhere⟩ := h.without hnone
    rw [htarget, hcommands]
    refine ⟨hstops, ?_, ?_⟩
    · rw [htarget]
      exact hhere.now
    · rw [hstop hnone]
      exact hhere.stop
  · rw [hsnapshot]
    exact h.breakpoint
  · rw [hcommands, hsnapshot]
    exact h.queue

/-- A command is queued. -/
theorem queued (h : Undone a m s) {command : TargetCommand}
    (hcommands : s'.commands = s.commands ++ [command]) (htarget : s'.target = s.target)
    (hsnapshot : s'.snapshot = s.snapshot)
    (hstop : s.snapshot = none → s'.lastDebuggerStop = s.lastDebuggerStop)
    (hfits : command.fits s.snapshot.isSome = true) (hrecord : command ≠ .record)
    (hwaits : s'.Waits a) : Undone a m s' := by
  have hchanges : command.changes = true → s.snapshot = none := fun hchanges => by
    simpa using TargetCommand.without_of_changes hfits hchanges
  refine ⟨?_, ?_, fun hnone => ?_, ?_, ?_, hwaits⟩
  · rw [htarget]
    exact h.visits
  · rw [htarget, hcommands]
    exact h.unrecorded.concat fun hchange => (h.without (hchanges hchange)).1
  · rw [hsnapshot] at hnone
    obtain ⟨hstops, hhere⟩ := h.without hnone
    rw [htarget, hcommands, recordsAfter_concat, hstops]
    refine ⟨?_, ?_, ?_⟩
    · cases command <;> first | rfl | exact absurd rfl hrecord
    · rw [htarget]
      exact hhere.now
    · rw [hstop hnone]
      exact hhere.stop
  · rw [hsnapshot]
    exact h.breakpoint
  · rw [hcommands, hsnapshot]
    intro c hc
    rcases List.mem_append.mp hc with hc | hc
    · exact h.queue c hc
    · rw [List.mem_singleton.mp hc]
      exact hfits

/-- The snapshot is made. -/
theorem made (h : Undone a m s) {snapshot : Option GDBBreakpoint}
    (hbreakpoint : ∀ br, snapshot = some br → br.address = a) (hcommands : s'.commands = [.record])
    (htarget : s'.target = s.target) (hsnapshot : s'.snapshot = some snapshot)
    (hcall : s'.call = none) : Undone a m s' := by
  refine ⟨?_, ?_, fun hnone => ?_, fun br hbr => ?_, ?_, fun call hwaits => ?_⟩
  · rw [htarget]
    exact h.visits
  · rw [hcommands]
    exact ⟨fun hchanges => (by cases hchanges), trivial⟩
  · rw [hsnapshot] at hnone
    cases hnone
  · rw [hsnapshot] at hbr
    exact hbreakpoint br (Option.some.inj hbr)
  · rw [hcommands]
    intro c hc
    rw [List.mem_singleton.mp hc]
    rfl
  · rw [hcall] at hwaits
    cases hwaits

end Undone

end InMemoryFuzzing.Gdb

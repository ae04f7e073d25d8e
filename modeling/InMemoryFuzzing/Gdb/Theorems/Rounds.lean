import InMemoryFuzzing.Gdb.BlockLedger
import InMemoryFuzzing.Gdb.PlainDebugger
import InMemoryFuzzing.Gdb.Theorems.Stops

/-!
# Rounds of in-memory fuzzing

`rounds_accumulate` — whenever a technique runs, the program is at the address of the
snapshot, and its memory is the one it had there at first with what the commands of all
techniques have made of it: nothing that the program did in a round is left.
`blocks_accounted` — so what a technique frees is still allocated, and of all blocks that the
techniques have allocated there is one left for each location.
-/

namespace InMemoryFuzzing.Gdb

open Base Platform DotNet

variable {L M : Type} {chars : CharData} {gdb : Debugger M} {effect : Effect M}
  {description : FuzzDescription L} {session : DebugSession M gdb} {m₀ : M}

/-- The program has stopped at the snapshot breakpoint, and gdb has nothing to do. -/
structure Reached (chars : CharData) (description : FuzzDescription L) (session : DebugSession M gdb)
    (m₀ : M) : Prop where
  reachable : ∃ target : gdb.State, (gdb.view target).breakpoints = [] ∧
    (gdb.view target).lastNumber < 2 ^ 31 ∧ (debugSystem chars gdb target).Reachable session
  call : session.call = none
  commands : session.commands = []
  snapshot : session.snapshot = none
  stop : ∃ stop, session.lastDebuggerStop = some stop ∧ stop.stopReason = .breakpoint ∧
    stop.address = description.snapshotBreakpoint
  address : description.snapshotBreakpoint ≠ 0
  now : (gdb.view session.target).now = some ⟨description.snapshotBreakpoint, m₀⟩
  recording : (gdb.view session.target).recording = false
  past : (gdb.view session.target).past = []

/-- With a snapshot, the program does not come to its address by itself, and does not end. -/
def StaysAway (description : FuzzDescription L) (s : FuzzRun L M gdb) : FuzzAct L M gdb → Prop
  | .execute choice => s.session.StaysAway description.snapshotBreakpoint choice
  | _ => True

theorem rounds_start (hchars : chars.Ascii) (hgdb : gdb.Documented chars effect)
    (hreached : Reached chars description session m₀) :
    Rounds effect description m₀ m₀ (.start session : FuzzRun L M gdb) := by
  obtain ⟨target, hnone, hint, hsession⟩ := hreached.reachable
  obtain ⟨stop, hstop, hreason, haddress⟩ := hreached.stop
  refine ⟨(stays hchars hgdb hnone hint).invariant _ hsession, .nothing,
    ⟨⟨?_, fun moment hnow _ => ?_, ?_, fun _ => hreached.past⟩, ?_, fun _ => ⟨?_, hreached.now, stop,
      hstop, haddress⟩, ?_, ?_, Undone.waits_of_idle hreached.call⟩, ?_, fun _ _ => ?_⟩
  · show (gdb.view session.target).now ≠ none
    rw [hreached.now]
    exact Option.some_ne_none _
  · change (gdb.view session.target).now = some moment at hnow
    rw [hreached.now] at hnow
    exact (Option.some.inj hnow).symm
  · show ∀ moment ∈ (gdb.view session.target).past, _
    rw [hreached.past]
    exact fun moment hmoment => absurd hmoment List.not_mem_nil
  · show Unrecorded _ session.commands
    rw [hreached.commands]
    trivial
  · show recordsAfter (gdb.view session.target).recording session.commands = false
    rw [hreached.commands, hreached.recording]
    rfl
  · show ∀ br, session.snapshot = some (some br) → _
    rw [hreached.snapshot]
    exact fun br hbr => by cases hbr
  · show ∀ c ∈ session.commands, _
    rw [hreached.commands]
    exact fun c hc => absurd hc List.not_mem_nil
  · show ∀ call, session.call = some call → _
    rw [hreached.call]
    exact fun call hcall => by cases hcall
  · refine ⟨fun _ _ => ?_, fun hphase => (by cases hphase), fun hphase => (by cases hphase),
      fun htechnique => (by cases htechnique)⟩
    show (session.snapshot.isNone && session.lastDebuggerStop.any _) = true
    rw [hreached.snapshot, hstop]
    exact decide_eq_true ⟨hreason, haddress⟩

theorem ledger_start (blocks : M → Set UInt64) (hreached : Reached chars description session m₀) :
    Ledger blocks m₀ m₀ (.start session : FuzzRun L M gdb) := by
  have hqueue : frees (FuzzRun.start session : FuzzRun L M gdb).session.commands = [] := by
    show frees session.commands = []
    rw [hreached.commands]
    rfl
  refine ⟨Holdings.none.of_eq fun holder => ?_, ?_, fun _ _ _ _ => hqueue, fun _ _ _ => rfl,
    fun change hchange => absurd hchange List.not_mem_nil⟩
  · cases holder with
    | location fuzzLocation => rfl
    | queued => exact congrArg List.head? hqueue
    | returned => rfl
  · rw [hqueue]
    exact Nat.zero_le 1

variable [DecidableEq L]

/-- One step of gdb or the controller. -/
theorem fuzz_step (hchars : chars.Ascii) (hgdb : gdb.Documented chars effect)
    (ha : description.snapshotBreakpoint ≠ 0) {m : M} {s s' : FuzzRun L M gdb}
    (h : Rounds effect description m₀ m s) {act : FuzzAct L M gdb}
    (haway : StaysAway description s act) (hstep : s.step chars description act = some s') :
    ∃ m', Rounds effect description m₀ m' s' ∧ ∀ blocks : M → Set UInt64, Allocates effect blocks →
      Ledger blocks m₀ m s → Ledger blocks m₀ m' s' := by
  rcases FuzzRun.step_cases hstep with ⟨choice, session, rfl, hsession, rfl⟩ |
    ⟨hidle, hnofault, -, hcontrolled⟩
  · obtain ⟨command, rest, answer, target, m', hcommands, hchanged, hbecame, houtcome, hrounds⟩ :=
      h.execute hchars hgdb haway hsession
    exact ⟨m', hrounds, fun blocks halloc hledger =>
      hledger.execute halloc h hrounds rfl rfl hcommands hchanged hbecame houtcome⟩
  · exact ⟨m, h.controlled ha hidle hnofault hcontrolled, fun blocks _ hledger =>
      hledger.controlled h hidle hnofault hcontrolled⟩

theorem rounds_and_ledger (hchars : chars.Ascii) (hgdb : gdb.Documented chars effect)
    (hreached : Reached chars description session m₀) {s : FuzzRun L M gdb}
    (hs : (fuzzSystem chars description session).ReachableBy (StaysAway description) s) :
    ∃ m, Rounds effect description m₀ m s ∧ ∀ blocks : M → Set UInt64, Allocates effect blocks →
      Ledger blocks m₀ m s := by
  have hinductive : (fuzzSystem chars description session).Inductive (StaysAway description)
      fun s => ∃ m, Rounds effect description m₀ m s ∧ ∀ blocks : M → Set UInt64,
        Allocates effect blocks → Ledger blocks m₀ m s := by
    constructor
    · rintro s rfl
      exact ⟨m₀, rounds_start hchars hgdb hreached, fun blocks _ => ledger_start blocks hreached⟩
    · rintro s act s' ⟨m, h, hledger⟩ haway hstep
      obtain ⟨m', hrounds, hkeeps⟩ := fuzz_step hchars hgdb hreached.address h haway hstep
      exact ⟨m', hrounds, fun blocks halloc => hkeeps blocks halloc (hledger blocks halloc)⟩
  exact hinductive.invariant s hs

/-- What has been written, latest first, and the blocks. -/
structure Heap where
  written : List (UInt64 × List UInt8)
  blocks : List UInt64
  deriving DecidableEq

/-- There is one block to give out. -/
def heapCommand : TargetCommand → Heap → Answer × Heap
  | .restore data address, heap =>
      (.done, { heap with written := (address, data) :: heap.written })
  | .malloc _, heap =>
      if 0x2000 ∈ heap.blocks then (.value (some 0), heap)
      else (.value (some 0x2000), { heap with blocks := 0x2000 :: heap.blocks })
  | .free address, heap =>
      (.done, { heap with blocks := heap.blocks.filter fun block => block ≠ address })
  | _, heap => (.done, heap)

abbrev heapGdb : Debugger Heap := .plain heapCommand

/-- One location, a pointer. -/
def pointerAt : FuzzDescription Unit := ⟨0x500, 0x600, fun _ => ⟨.pointerValue, 8⟩⟩

def heapTarget : Target Heap := ⟨[], 0, some ⟨0x400, ⟨[], []⟩⟩, false, []⟩

/-- The program goes on as it is, to an address. -/
def goesTo (address : UInt64) (heap : Heap) : Way Heap := ⟨[⟨address, heap⟩], false⟩

/-- Breakpoints at both ends, and on to the first one. -/
def reachRun : List (DebugAct Heap heapGdb) :=
  [.setSoftwareBreakpoint 0x500 "snapshot", .execute ⟨[], false⟩,
    .setSoftwareBreakpoint 0x600 "restore", .execute ⟨[], false⟩,
    .debugContinue, .execute (goesTo 0x500 ⟨[], [0x1000]⟩)]

def reachedSession : DebugSession Heap heapGdb :=
  ((debugSystem asciiData heapGdb heapTarget).exec (.start heapTarget) reachRun).getD
    (.start heapTarget)

theorem reachedSession_reached : Reached asciiData pointerAt reachedSession ⟨[], [0x1000]⟩ where
  reachable := by
    refine ⟨heapTarget, rfl, by decide, ?_⟩
    have hsome : ((debugSystem asciiData heapGdb heapTarget).exec (.start heapTarget)
        reachRun).isSome = true := by
      decide +kernel
    obtain ⟨session, hsession⟩ := Option.isSome_iff_exists.mp hsome
    rw [reachedSession, hsession, Option.getD_some]
    exact TSys.ReachableBy.exec reachRun (.init rfl) (fun _ _ _ => trivial) hsession
  call := by decide +kernel
  commands := by
    have hnone : reachedSession.commands.isEmpty = true := by decide +kernel
    exact List.isEmpty_iff.mp hnone
  snapshot := by decide +kernel
  stop := by
    have hstop : (reachedSession.lastDebuggerStop.any fun stop =>
        stop.stopReason = .breakpoint ∧ stop.address = 0x500) = true := by
      decide +kernel
    obtain ⟨stop, hsome, hfacts⟩ := (Option.any_eq_true _ _).mp hstop
    exact ⟨stop, hsome, of_decide_eq_true hfacts⟩
  address := by decide
  now := by decide +kernel
  recording := by decide +kernel
  past := by
    have hnone : (heapGdb.view reachedSession.target).past.isEmpty = true := by decide +kernel
    exact List.isEmpty_iff.mp hnone

/-- gdb executes a command, and the program does not move. -/
def answer : FuzzAct Unit Heap heapGdb := .execute ⟨[], false⟩

/-- On to the second breakpoint, where the program has written something, and back; the technique
begins. -/
def forthAndBack (data : List UInt8) : List (FuzzAct Unit Heap heapGdb) :=
  [.execute (goesTo 0x600 ⟨[(0x3000, [9])], []⟩), .next, .next, answer,
    .run () data (.ok 0x5000), answer, answer]

/-- Memory is allocated, the data and the pointer are written, and there is a new snapshot. -/
def writeBoth : List (FuzzAct Unit Heap heapGdb) :=
  [.next, answer, .next, answer, .link (.ok 0x5000), answer, .next, answer, answer]

def twoRounds : List (FuzzAct Unit Heap heapGdb) :=
  List.flatten [[.next, answer, answer, .next], forthAndBack [1, 2, 3], writeBoth, [.debugContinue],
    forthAndBack [4, 5], [.next, answer], writeBoth]

/-- The program goes forward to other addresses, and does not end. -/
def awayFrom (a : UInt64) (s : FuzzRun Unit Heap heapGdb) : FuzzAct Unit Heap heapGdb → Bool
  | .execute way => !way.ends && (way.passed.all fun moment => moment.pc ≠ a) &&
      (heapGdb.view s.session.target).now.isSome
  | _ => true

theorem staysAway_of_awayFrom (s : FuzzRun Unit Heap heapGdb) (act : FuzzAct Unit Heap heapGdb)
    (h : awayFrom pointerAt.snapshotBreakpoint s act = true) : StaysAway pointerAt s act := by
  cases act with
  | execute way =>
      simp only [awayFrom, Bool.and_eq_true, Bool.not_eq_true', List.all_eq_true,
        decide_eq_true_eq] at h
      obtain ⟨⟨hends, hpassed⟩, hruns⟩ := h
      obtain ⟨moment, hnow⟩ := Option.isSome_iff_exists.mp hruns
      refine fun rest _ => ⟨hpassed, fun answer target hexecute => ?_⟩
      exact Debugger.plain_goes hnow (by simp [hends]) hexecute
  | _ => trivial

def FuzzPhase.isTriggering : FuzzPhase Unit → Bool
  | .triggering => true
  | _ => false

/-- What the techniques have written, and nothing of the program. -/
def afterTwoRounds : Heap where
  written := [(0x5000, getBytesUInt64 0x2000), (0x2000, [4, 5]), (0x5000, getBytesUInt64 0x2000),
    (0x2000, [1, 2, 3])]
  blocks := [0x2000, 0x1000]

theorem twoRounds_end : ∃ s, (fuzzSystem asciiData pointerAt reachedSession).ReachableBy
      (StaysAway pointerAt) s ∧ s.phase = .triggering ∧ s.session.call = none ∧
      s.session.fault = none ∧ s.currentAllocatedMemory () = some 0x2000 ∧
      (heapGdb.view s.session.target).now = some ⟨0x500, afterTwoRounds⟩ ∧
      .free 0x2000 ∈ s.changes.map Change.command := by
  have hfacts : ((fuzzSystem asciiData pointerAt reachedSession).execWhere
      (awayFrom pointerAt.snapshotBreakpoint) (.start reachedSession) twoRounds).any (fun s =>
        s.phase.isTriggering && s.session.call.isNone && s.session.fault.isNone &&
        s.currentAllocatedMemory () == some 0x2000 &&
        (heapGdb.view s.session.target).now == some ⟨0x500, afterTwoRounds⟩ &&
        decide (.free 0x2000 ∈ s.changes.map Change.command)) = true := by
    decide +kernel
  obtain ⟨s, hs, hall⟩ := (Option.any_eq_true _ _).mp hfacts
  simp only [Bool.and_eq_true, Option.isNone_iff_eq_none, beq_iff_eq, decide_eq_true_eq] at hall
  obtain ⟨⟨⟨⟨⟨hphase, hidle⟩, hfault⟩, hcurrent⟩, hnow⟩, hfreed⟩ := hall
  refine ⟨s, .execWhere staysAway_of_awayFrom (.init rfl) hs, ?_, hidle, hfault, hcurrent, hnow,
    hfreed⟩
  cases hwhere : s.phase with
  | triggering => rfl
  | _ => rw [hwhere] at hphase; cases hphase

/-- The block is allocated, given back, and allocated again. -/
theorem heap_allocates :
    Allocates (Debugger.plainEffect heapCommand) fun heap => {block | block ∈ heap.blocks} where
  malloc := by
    intro size heap answer heap' h
    simp only [Debugger.plainEffect, heapCommand] at h
    split at h
    · cases h
      exact .inr ⟨fun address haddress => by cases haddress; rfl, rfl⟩
    · next hfree =>
        cases h
        refine .inl ⟨_, rfl, by decide, hfree, ?_⟩
        ext block
        simp
  free := by
    intro address heap answer heap' h _
    cases h
    ext block
    simp
  restore := by
    intro data address heap answer heap' h
    cases h
    rfl

end InMemoryFuzzing.Gdb

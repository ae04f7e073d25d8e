import InMemoryFuzzing.Base.Holdings
import InMemoryFuzzing.Gdb.RoundsLogic

/-!
# The blocks of the techniques

`Ledger`: what is allocated are the blocks that the program had at the first snapshot, and one
for each location that has one, or whose block is on its way: freed by a command that gdb has
still to execute, or just allocated. The allocator is a parameter (`Allocates`).
-/

namespace InMemoryFuzzing.Gdb

open Base Platform DotNet

variable {L M : Type} {chars : CharData} {gdb : Debugger M} {effect : Effect M}
  {blocks : M → Set UInt64}

/-- What is documented of `malloc` and `free`, and that the data which the techniques write is not
the allocator's own. -/
structure Allocates (effect : Effect M) (blocks : M → Set UInt64) : Prop where
  /-- A new block, or none: then gdb prints null, 0, or nothing. -/
  malloc : ∀ {size m answer m'}, effect (.malloc size) m answer m' →
    (∃ address, answer = .value (some address) ∧ address ≠ 0 ∧ address ∉ blocks m ∧
      blocks m' = insert address (blocks m)) ∨
    (∀ address, answer = .value (some address) → address = 0) ∧ blocks m' = blocks m
  free : ∀ {address m answer m'}, effect (.free address) m answer m' → address ∈ blocks m →
    blocks m' = blocks m \ {address}
  restore : ∀ {data address m answer m'}, effect (.restore data address) m answer m' →
    blocks m' = blocks m

/-! ## Who has a block -/

/-- A location, `free` in the queue, or `AllocateMemory` that has returned. -/
inductive Holder (L : Type)
  | location (fuzzLocation : L)
  | queued
  | returned
  deriving DecidableEq

/-- The blocks that are still to be freed. -/
def frees (commands : List TargetCommand) : List UInt64 :=
  commands.filterMap fun
    | .free address => some address
    | _ => none

namespace FuzzRun

variable (s : FuzzRun L M gdb)

def returnedMemory : Option UInt64 :=
  match s.phase with
  | .allocating _ _ => if s.session.call = none then s.session.allocatedMemory else none
  | _ => none

def holds : Holder L → Option UInt64
  | .location fuzzLocation => s.currentAllocatedMemory fuzzLocation
  | .queued => (frees s.session.commands).head?
  | .returned => s.returnedMemory

end FuzzRun

structure Ledger (blocks : M → Set UInt64) (m₀ m : M) (s : FuzzRun L M gdb) : Prop where
  holdings : Holdings (blocks m₀) (blocks m) s.holds
  one : (frees s.session.commands).length ≤ 1
  freeing : ∀ fuzzLocation data, s.phase = .freeing fuzzLocation data →
    s.currentAllocatedMemory fuzzLocation ≠ none → frees s.session.commands = []
  allocating : ∀ fuzzLocation data, s.phase = .allocating fuzzLocation data →
    s.currentAllocatedMemory fuzzLocation = none
  freed : ∀ change ∈ s.changes, ∀ address, change.command = .free address →
    ∃ moment, change.before = some moment ∧ address ∈ blocks moment.memory

theorem frees_append (left right : List TargetCommand) :
    frees (left ++ right) = frees left ++ frees right := by
  rw [frees, List.filterMap_append]
  rfl

theorem frees_cons {command : TargetCommand} {rest : List TargetCommand}
    (hother : ∀ address, command ≠ .free address) : frees (command :: rest) = frees rest := by
  cases command with
  | free address => exact absurd rfl (hother address)
  | _ => rfl

theorem FuzzRun.returnedMemory_none {s : FuzzRun L M gdb}
    (hphase : ∀ fuzzLocation data, s.phase ≠ .allocating fuzzLocation data) :
    s.returnedMemory = none := by
  unfold FuzzRun.returnedMemory
  cases hwhere : s.phase with
  | allocating fuzzLocation data => exact absurd hwhere (hphase fuzzLocation data)
  | _ => rfl

/-- While `AllocateMemory` has not returned there is nothing that it has returned. -/
theorem FuzzRun.returnedMemory_of_waiting {s : FuzzRun L M gdb} {call : Call}
    (hcall : s.session.call = some call) : s.returnedMemory = none := by
  unfold FuzzRun.returnedMemory
  cases s.phase with
  | allocating fuzzLocation data => exact if_neg (by simp [hcall])
  | _ => rfl

/-- A phase that waits for something else is not that of `AllocateMemory`. -/
theorem FuzzPhase.Allows.not_allocating {phase : FuzzPhase L} {call : Call}
    (h : phase.Allows call) (hother : call ≠ .allocateMemory) :
    ∀ fuzzLocation data, phase ≠ .allocating fuzzLocation data := by
  rintro fuzzLocation data rfl
  cases call <;> first | exact hother rfl | cases h

/-- `AllocateMemory` has one phase. -/
theorem FuzzPhase.Allows.allocating {phase : FuzzPhase L} (h : phase.Allows .allocateMemory) :
    ∃ fuzzLocation data, phase = .allocating fuzzLocation data := by
  cases phase with
  | allocating fuzzLocation data => exact ⟨fuzzLocation, data, rfl⟩
  | _ => cases h

theorem FuzzRun.holds_queued {s : FuzzRun L M gdb} {address : UInt64} {rest : List TargetCommand}
    (hcommands : s.session.commands = .free address :: rest) : s.holds .queued = some address := by
  rw [FuzzRun.holds, hcommands]
  rfl

/-- With a snapshot nothing is to be freed. -/
theorem Undone.frees_nil {a : UInt64} {m : M} {s : DebugSession M gdb} (h : Undone a m s)
    (hsome : s.snapshot ≠ none) : frees s.commands = [] := by
  rw [frees, List.filterMap_eq_nil_iff]
  intro command hcommand
  have hfits := h.queue command hcommand
  rw [Option.isSome_iff_ne_none.mpr hsome] at hfits
  cases command <;> first | rfl | cases hfits

namespace Ledger

variable {m₀ m m' : M} {s s' : FuzzRun L M gdb}

/-- The same holders have the same. -/
theorem of_same (h : Ledger blocks m₀ m s) (hblocks : blocks m' = blocks m)
    (hcurrent : s'.currentAllocatedMemory = s.currentAllocatedMemory)
    (hfrees : frees s'.session.commands = frees s.session.commands)
    (hreturned : s'.returnedMemory = s.returnedMemory)
    (hfreeing : ∀ fuzzLocation data, s'.phase = .freeing fuzzLocation data →
      s.currentAllocatedMemory fuzzLocation ≠ none → frees s.session.commands = [])
    (hallocating : ∀ fuzzLocation data, s'.phase = .allocating fuzzLocation data →
      s.currentAllocatedMemory fuzzLocation = none)
    (hfreed : ∀ change ∈ s'.changes, ∀ address, change.command = .free address →
      ∃ moment, change.before = some moment ∧ address ∈ blocks moment.memory) :
    Ledger blocks m₀ m' s' := by
  refine ⟨?_, ?_, ?_, ?_, hfreed⟩
  · rw [hblocks]
    refine h.holdings.of_eq fun holder => ?_
    cases holder with
    | location fuzzLocation => exact congrFun hcurrent fuzzLocation
    | queued => exact congrArg List.head? hfrees
    | returned => exact hreturned
  · rw [hfrees]
    exact h.one
  · rw [hcurrent, hfrees]
    exact hfreeing
  · rw [hcurrent]
    exact hallocating

theorem freeing_of_phase (h : Ledger blocks m₀ m s) {phase : FuzzPhase L}
    (hphase : phase = s.phase) : ∀ fuzzLocation data, phase = .freeing fuzzLocation data →
      s.currentAllocatedMemory fuzzLocation ≠ none → frees s.session.commands = [] := by
  rw [hphase]
  exact h.freeing

theorem allocating_of_phase (h : Ledger blocks m₀ m s) {phase : FuzzPhase L}
    (hphase : phase = s.phase) : ∀ fuzzLocation data, phase = .allocating fuzzLocation data →
      s.currentAllocatedMemory fuzzLocation = none := by
  rw [hphase]
  exact h.allocating

variable {description : FuzzDescription L} {command : TargetCommand} {rest : List TargetCommand}
  {answer : Answer} {t t' : Target M}

/-- A command that neither frees nor allocates a block. -/
theorem blocks_same (halloc : Allocates effect blocks)
    (hbecame : Became effect description.snapshotBreakpoint command answer t t' m m')
    (hfree : ∀ address, command ≠ .free address)
    (hmalloc : ∀ size, command = .malloc size →
      ∀ address, answer = .value (some address) → address = 0) : blocks m' = blocks m := by
  rcases hbecame with ⟨-, rfl⟩ | ⟨hchanges, heffect, -, -⟩
  · rfl
  · cases command with
    | restore data address => exact halloc.restore heffect
    | malloc size =>
        rcases halloc.malloc heffect with ⟨address, rfl, hne, -⟩ | ⟨-, hblocks⟩
        · exact absurd (hmalloc size rfl address rfl) hne
        · exact hblocks
    | free address => exact absurd rfl (hfree address)
    | _ => cases hchanges

/-- What is freed is a block. -/
theorem freed_changed (h : Ledger blocks m₀ m s) (hcommands : s.session.commands = command :: rest)
    (hchanged : s'.changes = if command.changes then
      s.changes ++ [⟨command, answer, t.now, t'.now⟩] else s.changes)
    (hbecame : Became effect description.snapshotBreakpoint command answer t t' m m') :
    ∀ change ∈ s'.changes, ∀ address, change.command = .free address →
      ∃ moment, change.before = some moment ∧ address ∈ blocks moment.memory := by
  intro change hchange address haddress
  rw [hchanged] at hchange
  split at hchange
  · next hchanges =>
      rcases List.mem_append.mp hchange with hchange | hchange
      · exact h.freed change hchange address haddress
      · cases List.mem_singleton.mp hchange
        cases haddress
        obtain ⟨-, -, hbefore, -⟩ := hbecame.resolve_left fun hno => by cases hno.1
        exact ⟨_, hbefore, h.holdings.mem (FuzzRun.holds_queued hcommands)⟩
  · exact h.freed change hchange address haddress

/-- gdb executes a command while the fuzzing thread waits on. -/
theorem waits [DecidableEq L] (h : Ledger blocks m₀ m s) (halloc : Allocates effect blocks)
    (hphase : s'.phase = s.phase) (hcurrent : s'.currentAllocatedMemory = s.currentAllocatedMemory)
    (hcommands : s.session.commands = command :: rest) (hrest : s'.session.commands = rest)
    (hcall : s'.session.call = s.session.call)
    (hmemory : s'.session.allocatedMemory = s.session.allocatedMemory)
    (hvalue : ∀ size, command = .malloc size → ∀ value, answer ≠ .value value)
    (hchanged : s'.changes = if command.changes then
      s.changes ++ [⟨command, answer, t.now, t'.now⟩] else s.changes)
    (hbecame : Became effect description.snapshotBreakpoint command answer t t' m m') :
    Ledger blocks m₀ m' s' := by
  have hfreed := h.freed_changed hcommands hchanged hbecame
  have hreturned : s'.returnedMemory = s.returnedMemory := by
    unfold FuzzRun.returnedMemory
    rw [hphase, hcall, hmemory]
  by_cases hfree : ∃ address, command = .free address
  · obtain ⟨address, rfl⟩ := hfree
    have hone := h.one
    rw [hcommands] at hone
    change (address :: frees rest).length ≤ 1 at hone
    have hnothing : frees rest = [] := by
      rw [← List.length_eq_zero_iff]
      rw [List.length_cons] at hone
      omega
    have hqueued := FuzzRun.holds_queued hcommands
    obtain ⟨-, heffect, -, -⟩ := hbecame.resolve_left fun hno => by cases hno.1
    refine ⟨?_, ?_, fun _ _ _ _ => ?_, fun fuzzLocation data hwhere => ?_, hfreed⟩
    · rw [halloc.free heffect (h.holdings.mem hqueued)]
      refine (h.holdings.release hqueued).of_eq fun holder => ?_
      cases holder with
      | location fuzzLocation => exact congrFun hcurrent fuzzLocation
      | queued =>
          rw [Function.update_self, FuzzRun.holds, hrest, hnothing]
          rfl
      | returned => exact hreturned
    · rw [hrest, hnothing]
      exact Nat.zero_le 1
    · rw [hrest]
      exact hnothing
    · rw [hcurrent]
      exact h.allocating_of_phase hphase fuzzLocation data hwhere
  · have hnot : ∀ address, command ≠ .free address := fun address hfree' => hfree ⟨address, hfree'⟩
    have hfrees : frees s'.session.commands = frees s.session.commands := by
      rw [hrest, hcommands, frees_cons hnot]
    refine h.of_same (blocks_same halloc hbecame hnot fun size hsize address hanswer =>
      absurd hanswer (hvalue size hsize _)) hcurrent hfrees hreturned (h.freeing_of_phase hphase)
      (h.allocating_of_phase hphase) hfreed

/-- A call has come to its end, or is waiting, and no block has gone or come. -/
theorem of_outcome (h : Ledger blocks m₀ m s) (halloc : Allocates effect blocks)
    (hrounds : Rounds effect description m₀ m s) (hphase : s'.phase = s.phase)
    (hcurrent : s'.currentAllocatedMemory = s.currentAllocatedMemory)
    (hcommands : s.session.commands = command :: rest) {call : Call}
    (hcall : s.session.call = some call) (hother : call ≠ .allocateMemory)
    (hfree : ∀ address, command ≠ .free address) (hmalloc : ∀ size, command ≠ .malloc size)
    (hrest : frees s.session.commands = []) (hrest' : frees s'.session.commands = [])
    (hchanged : s'.changes = if command.changes then
      s.changes ++ [⟨command, answer, t.now, t'.now⟩] else s.changes)
    (hbecame : Became effect description.snapshotBreakpoint command answer t t' m m') :
    Ledger blocks m₀ m' s' := by
  have hwhere := (hrounds.allows call hcall).not_allocating hother
  refine h.of_same (blocks_same halloc hbecame hfree fun size hsize => absurd hsize (hmalloc size))
    hcurrent (hrest'.trans hrest.symm) ?_ (h.freeing_of_phase hphase)
    (h.allocating_of_phase hphase) (h.freed_changed hcommands hchanged hbecame)
  rw [FuzzRun.returnedMemory_none hwhere, FuzzRun.returnedMemory_none]
  rw [hphase]
  exact hwhere

/-- `AllocateMemory` returns. -/
theorem allocated [DecidableEq L] (h : Ledger blocks m₀ m s) (halloc : Allocates effect blocks)
    (hrounds : Rounds effect description m₀ m s) (hphase : s'.phase = s.phase)
    (hcurrent : s'.currentAllocatedMemory = s.currentAllocatedMemory) {size : UInt64}
    {value : Option UInt64} (hcommands : s.session.commands = [.malloc size])
    (hcall : s.session.call = some .allocateMemory) (hidle : s'.session.call = none)
    (hrest : s'.session.commands = [])
    (hmemory : s'.session.allocatedMemory = value.filter fun address => address ≠ 0)
    (hchanged : s'.changes = if (TargetCommand.malloc size).changes then
      s.changes ++ [⟨.malloc size, .value value, t.now, t'.now⟩] else s.changes)
    (hbecame : Became effect description.snapshotBreakpoint (.malloc size) (.value value) t t' m
      m') :
    Ledger blocks m₀ m' s' := by
  obtain ⟨fuzzLocation, data, hwhere⟩ := (hrounds.allows _ hcall).allocating
  have hnothing : s.returnedMemory = none := FuzzRun.returnedMemory_of_waiting hcall
  have hreturned : s'.returnedMemory = value.filter fun address => address ≠ 0 := by
    unfold FuzzRun.returnedMemory
    rw [hphase, hwhere]
    dsimp only
    rw [if_pos hidle, hmemory]
  have hfrees : frees s'.session.commands = frees s.session.commands := by
    rw [hrest, hcommands]
    rfl
  have hfreed := h.freed_changed hcommands hchanged hbecame
  have hfreeing := h.freeing_of_phase hphase
  have hallocating := h.allocating_of_phase hphase
  obtain ⟨-, heffect, -, -⟩ := hbecame.resolve_left fun hno => by cases hno.1
  rcases halloc.malloc heffect with ⟨address, hvalue, hne, hfresh, hblocks⟩ | ⟨hzero, hblocks⟩
  · cases hvalue
    rw [Option.filter_some, if_pos (decide_eq_true hne)] at hreturned
    refine ⟨?_, ?_, ?_, ?_, hfreed⟩
    · rw [hblocks]
      have hnone : s.holds .returned = none := hnothing
      refine (h.holdings.acquire hnone hfresh).of_eq fun holder => ?_
      cases holder with
      | location l => exact congrFun hcurrent l
      | queued => exact congrArg List.head? hfrees
      | returned =>
          rw [Function.update_self]
          exact hreturned
    · rw [hfrees]
      exact h.one
    · rw [hcurrent, hfrees]
      exact hfreeing
    · rw [hcurrent]
      exact hallocating
  · refine h.of_same hblocks hcurrent hfrees ?_ hfreeing hallocating hfreed
    rw [hnothing, hreturned, Option.filter_eq_none_iff]
    intro address haddress
    cases value with
    | none => cases haddress
    | some found =>
        rw [hzero found rfl] at haddress
        cases haddress
        simp

/-- gdb executes a command. -/
theorem execute [DecidableEq L] (h : Ledger blocks m₀ m s) (halloc : Allocates effect blocks)
    (hrounds : Rounds effect description m₀ m s) (hrounds' : Rounds effect description m₀ m' s')
    (hphase : s'.phase = s.phase) (hcurrent : s'.currentAllocatedMemory = s.currentAllocatedMemory)
    (hcommands : s.session.commands = command :: rest)
    (hchanged : s'.changes = if command.changes then
      s.changes ++ [⟨command, answer, t.now, t'.now⟩] else s.changes)
    (hbecame : Became effect description.snapshotBreakpoint command answer t t' m m')
    (houtcome : Outcome description.snapshotBreakpoint m m' command answer rest s.session
      s'.session) :
    Ledger blocks m₀ m' s' := by
  cases houtcome with
  | waits hcall hsnapshot hstop hfault hmemory hrest hvalue hat =>
      exact h.waits halloc hphase hcurrent hcommands hrest hcall hmemory hvalue hchanged hbecame
  | @moves restoring hcall hcall' hsnapshot harrived =>
      have hsome := hrounds.undone.snapshot_of_moving hcall
      have hstays : command.changes = false := by
        have hfits := hrounds.undone.queue command (by rw [hcommands]; exact List.mem_cons_self)
        rw [Option.isSome_iff_ne_none.mpr hsome] at hfits
        exact Bool.eq_false_iff.mpr fun hchanges =>
          absurd (TargetCommand.without_of_changes hfits hchanges) (by simp)
      have hrest := hrounds.undone.frees_nil hsome
      have hrest' := hrounds'.undone.frees_nil (hsnapshot ▸ hsome)
      have hfree : ∀ address, command ≠ .free address := by
        rintro address rfl
        cases hstays
      have hmalloc : ∀ size, command ≠ .malloc size := by
        rintro size rfl
        cases hstays
      rcases hcall with hcall | hcall
      · exact h.of_outcome halloc hrounds hphase hcurrent hcommands hcall (by simp) hfree hmalloc
          hrest hrest' hchanged hbecame
      · exact h.of_outcome halloc hrounds hphase hcurrent hcommands hcall (by simp) hfree hmalloc
          hrest hrest' hchanged hbecame
  | made hcommand hrest hcall hcall' hsnapshot hat =>
      subst hcommand hrest
      refine h.of_outcome halloc hrounds hphase hcurrent hcommands hcall (by simp) (by simp)
        (by simp) ?_ (hrounds'.undone.frees_nil hsnapshot) hchanged hbecame
      rw [hcommands]
      rfl
  | written hcommand hrest hcall hcall' hsnapshot hrest' =>
      subst hcommand hrest
      refine h.of_outcome halloc hrounds hphase hcurrent hcommands hcall (by simp) (by simp)
        (by simp) ?_ ?_ hchanged hbecame
      · rw [hcommands]
        rfl
      · rw [hrest']
        rfl
  | allocated hcommand hrest hanswer hcall hcall' hsnapshot hrest' hmemory =>
      subst hcommand hrest hanswer
      exact h.allocated halloc hrounds hphase hcurrent hcommands hcall hcall' hrest' hmemory hchanged
        hbecame

/-- A command is queued that frees nothing, outside of `AllocateMemory`. -/
theorem of_queued (h : Ledger blocks m₀ m s)
    (hcurrent : s'.currentAllocatedMemory = s.currentAllocatedMemory)
    (hchanges : s'.changes = s.changes)
    (hfrees : frees s'.session.commands = frees s.session.commands)
    (hbefore : ∀ fuzzLocation data, s.phase ≠ .allocating fuzzLocation data)
    (hafter : s'.returnedMemory = none)
    (hfreeing : ∀ fuzzLocation data, s'.phase = .freeing fuzzLocation data →
      s.currentAllocatedMemory fuzzLocation ≠ none → frees s.session.commands = [])
    (hallocating : ∀ fuzzLocation data, s'.phase = .allocating fuzzLocation data →
      s.currentAllocatedMemory fuzzLocation = none) : Ledger blocks m₀ m s' := by
  refine h.of_same rfl hcurrent hfrees ?_ hfreeing hallocating ?_
  · rw [hafter, FuzzRun.returnedMemory_none hbefore]
  · rw [hchanges]
    exact h.freed

/-- A call that frees nothing. -/
theorem frees_begin {session session' : DebugSession M gdb} {act : DebugAct M gdb}
    (hact : ∀ address, act ≠ .freeMemory address) (hbegin : session.begin act = some session') :
    frees session'.commands = frees session.commands := by
  have hother : ∀ command : TargetCommand, (∀ address, command ≠ .free address) →
      frees (session.commands ++ [command]) = frees session.commands := by
    intro command hcommand
    rw [frees_append, frees_cons hcommand]
    exact List.append_nil _
  cases act with
  | setSoftwareBreakpoint address identifier =>
      cases hbegin
      exact hother _ (by simp)
  | resolveSymbolToBreakpointAddress symbol =>
      cases hbegin
      exact hother _ (by simp)
  | delete br =>
      obtain ⟨-, heq⟩ := Option.ite_none_right_eq_some.mp hbegin
      cases heq
      exact hother _ (by simp)
  | createSnapshot =>
      rw [DebugSession.begin] at hbegin
      split at hbegin
      · cases hbegin
      · cases hbegin
        rfl
      · split at hbegin
        · cases hbegin
          rfl
        · cases hbegin
          exact hother _ (by simp)
  | destroySnapshot =>
      obtain ⟨snapshot, hsnapshot, heq⟩ := Option.map_eq_some_iff.mp hbegin
      cases snapshot with
      | none =>
          cases heq
          rfl
      | some br =>
          cases heq
          show frees (session.commands ++ [.deleteBreakpoint br.breakpointNum] ++ [.recordStop]) = _
          rw [frees_append, hother _ (by simp)]
          exact List.append_nil _
  | debugContinue =>
      cases hbegin
      exact hother _ (by simp)
  | restore =>
      obtain ⟨snapshot, hsnapshot, heq⟩ := Option.map_eq_some_iff.mp hbegin
      cases heq
      exact hother _ (by simp)
  | writeMemory data address =>
      obtain ⟨-, heq⟩ := Option.ite_none_right_eq_some.mp hbegin
      cases heq
      exact hother _ (by simp)
  | allocateMemory size =>
      obtain ⟨-, heq⟩ := Option.ite_none_right_eq_some.mp hbegin
      cases heq
      exact hother _ (by simp)
  | freeMemory address => exact absurd rfl (hact address)
  | execute choice => cases hbegin

/-- The technique of a location frees its block. -/
theorem freeMemory [DecidableEq L] (h : Ledger blocks m₀ m s) {fuzzLocation : L} {data : List UInt8}
    {address : UInt64} {session : DebugSession M gdb}
    (hphase : s.phase = .freeing fuzzLocation data)
    (hmemory : s.currentAllocatedMemory fuzzLocation = some address)
    (hbegin : s.session.begin (.freeMemory address) = some session) :
    Ledger blocks m₀ m
      ({ s with session, phase := .freeing fuzzLocation data }.setMemory fuzzLocation none) := by
  obtain ⟨-, heq⟩ := Option.ite_none_right_eq_some.mp hbegin
  cases heq
  have hnothing : frees s.session.commands = [] :=
    h.freeing fuzzLocation data hphase (by simp [hmemory])
  have hqueue : frees (s.session.commands ++ [.free address]) = [address] := by
    rw [frees_append, hnothing]
    rfl
  have hlocation : s.holds (.location fuzzLocation) = some address := hmemory
  have hqueued : s.holds .queued = none := by
    rw [FuzzRun.holds, hnothing]
    rfl
  refine ⟨(h.holdings.hand hlocation hqueued).of_eq fun holder => ?_, ?_,
    fun other bytes hother hne => ?_, fun other bytes hother => ?_, h.freed⟩
  · cases holder with
    | location other =>
        rw [Function.update_of_ne (by simp)]
        by_cases hsame : other = fuzzLocation
        · subst hsame
          rw [Function.update_self]
          exact Function.update_self ..
        · rw [Function.update_of_ne (by simpa using hsame)]
          exact Function.update_of_ne hsame ..
    | queued =>
        rw [Function.update_self]
        exact congrArg List.head? hqueue
    | returned =>
        rw [Function.update_of_ne (by simp), Function.update_of_ne (by simp)]
        show none = s.returnedMemory
        rw [FuzzRun.returnedMemory_none]
        simp [hphase]
  · exact (congrArg List.length hqueue).le
  · cases hother
    exact absurd (Function.update_self ..) hne
  · cases hother

/-- The block of `AllocateMemory` is that of the location. -/
theorem keepMemory [DecidableEq L] (h : Ledger blocks m₀ m s) (hidle : s.session.call = none)
    {fuzzLocation : L} {data : List UInt8} {address : UInt64} {session : DebugSession M gdb}
    (hphase : s.phase = .allocating fuzzLocation data)
    (hmemory : s.session.allocatedMemory = some address)
    (hbegin : s.session.begin (.writeMemory data address) = some session) :
    Ledger blocks m₀ m
      ({ s with session, phase := .linking fuzzLocation address }.setMemory fuzzLocation
        (some address)) := by
  have hqueue := frees_begin (by simp) hbegin
  have hreturned : s.holds .returned = some address := by
    show s.returnedMemory = some address
    unfold FuzzRun.returnedMemory
    rw [hphase]
    dsimp only
    rw [if_pos hidle]
    exact hmemory
  have hlocation : s.holds (.location fuzzLocation) = none :=
    h.allocating fuzzLocation data hphase
  refine ⟨(h.holdings.hand hreturned hlocation).of_eq fun holder => ?_, ?_,
    fun other bytes hother => (by cases hother), fun other bytes hother => (by cases hother),
    h.freed⟩
  · cases holder with
    | location other =>
        by_cases hsame : other = fuzzLocation
        · subst hsame
          rw [Function.update_self]
          exact Function.update_self ..
        · rw [Function.update_of_ne (by simpa using hsame), Function.update_of_ne (by simp)]
          exact Function.update_of_ne hsame ..
    | queued =>
        rw [Function.update_of_ne (by simp), Function.update_of_ne (by simp)]
        exact congrArg List.head? hqueue
    | returned =>
        rw [Function.update_of_ne (by simp), Function.update_self]
        rfl
  · show (frees session.commands).length ≤ 1
    rw [hqueue]
    exact h.one

/-- The controller goes on. -/
theorem controlled [DecidableEq L] (h : Ledger blocks m₀ m s)
    (hrounds : Rounds effect description m₀ m s) (hidle : s.session.call = none)
    (hnofault : s.session.fault = none) (hcontrolled : Controlled description s s') :
    Ledger blocks m₀ m s' := by
  cases hcontrolled with
  | raises e => exact ⟨h.holdings, h.one, h.freeing, h.allocating, h.freed⟩
  | compares hphase hreached =>
      exact h.of_queued rfl rfl rfl (by simp [hphase]) rfl (by simp) (by simp)
  | creates hphase hbegin =>
      rcases hphase with ⟨hphase, -, rfl⟩ | ⟨hphase, rfl⟩
      · exact h.of_queued rfl rfl (frees_begin (by simp) hbegin) (by simp [hphase]) rfl (by simp)
          (by simp)
      · exact h.of_queued rfl rfl (frees_begin (by simp) hbegin) (by simp [hphase]) rfl (by simp)
          (by simp)
  | continues hphase hbegin =>
      refine h.of_queued rfl rfl (frees_begin (by simp) hbegin) ?_ rfl (by simp) (by simp)
      rcases hphase with hphase | hphase <;> simp [hphase]
  | restores hphase hbegin =>
      exact h.of_queued rfl rfl (frees_begin (by simp) hbegin) (by simp [hphase]) rfl (by simp)
        (by simp)
  | destroys hphase hnext hbegin =>
      have hsome := ((hrounds.ready hidle hnofault).2.2.1 hphase).1
      refine h.of_queued rfl rfl (frees_begin (by simp) hbegin) (by simp [hphase]) ?_
        (fun _ _ _ _ => hrounds.undone.frees_nil hsome) ?_
      · rcases hnext with ⟨data, target, rfl⟩ | ⟨fuzzLocation, data, rfl⟩ <;> rfl
      · rcases hnext with ⟨data, target, rfl⟩ | ⟨fuzzLocation, data, rfl⟩ <;> simp
  | writes hphase hbegin =>
      refine h.of_queued rfl rfl (frees_begin (by simp) hbegin) ?_ rfl (by simp) (by simp)
      rcases hphase with ⟨data, target, hphase⟩ | ⟨fuzzLocation, memory, hphase⟩ <;> simp [hphase]
  | frees hphase hmemory hbegin => exact h.freeMemory hphase hmemory hbegin
  | allocates hphase hmemory hbegin =>
      have hqueue := frees_begin (by simp) hbegin
      obtain ⟨-, hcall⟩ := (hrounds.change hidle hnofault (by rw [hphase]; rfl)).2.1 hbegin
      refine h.of_queued rfl rfl hqueue (by simp [hphase]) (FuzzRun.returnedMemory_of_waiting hcall)
        (by simp) fun other bytes hother => ?_
      cases hother
      exact hmemory
  | keeps hphase hmemory hbegin => exact h.keepMemory hidle hphase hmemory hbegin

/-- With nothing on its way, the locations have the blocks. -/
theorem settled (h : Ledger blocks m₀ m s) (hqueue : frees s.session.commands = [])
    (hphase : ∀ fuzzLocation data, s.phase ≠ .allocating fuzzLocation data) :
    Holdings (blocks m₀) (blocks m) s.currentAllocatedMemory := by
  have hlocation : ∀ holder address, s.holds holder = some address →
      ∃ fuzzLocation, holder = .location fuzzLocation := by
    intro holder address hholds
    cases holder with
    | location fuzzLocation => exact ⟨fuzzLocation, rfl⟩
    | queued =>
        rw [FuzzRun.holds, hqueue] at hholds
        cases hholds
    | returned =>
        rw [FuzzRun.holds, FuzzRun.returnedMemory_none hphase] at hholds
        cases hholds
  refine ⟨fun address => (h.holdings.present address).trans (or_congr Iff.rfl ⟨?_, ?_⟩),
    fun fuzzLocation => h.holdings.new (.location fuzzLocation),
    fun one other address hone hother => ?_⟩
  · rintro ⟨holder, hholds⟩
    obtain ⟨fuzzLocation, rfl⟩ := hlocation holder address hholds
    exact ⟨fuzzLocation, hholds⟩
  · rintro ⟨fuzzLocation, hholds⟩
    exact ⟨.location fuzzLocation, hholds⟩
  · have hsame : (Holder.location one : Holder L) = .location other :=
      h.holdings.apart (.location one) (.location other) address hone hother
    cases hsame
    rfl

end Ledger

end InMemoryFuzzing.Gdb

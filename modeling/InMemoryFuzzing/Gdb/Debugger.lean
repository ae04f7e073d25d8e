import InMemoryFuzzing.Gdb.Announcement

/-!
# gdb and the program

Neither is part of the repository. `Debugger` is any of them: what it does for a
command, and what of it can be seen from outside. `Debugger.Documented` is what its
manual says of the commands the connector uses, and of the calls of `malloc` and
`free` that they come back: breakpoints have increasing numbers, the program is
where gdb says it is, and going back it does not pass a breakpoint. What the program
does, when it ends, how much gdb keeps of the record and whether it can set a
breakpoint is left open.
-/

namespace InMemoryFuzzing.Gdb

open Base Platform DotNet

/-! ## Commands -/

/-- `SetBreakpointCmd` has an address, `SetBreakpointNameCmd` a symbol. -/
inductive Place
  | address (address : UInt64)
  | symbol (name : String)
  deriving DecidableEq, Repr

/-- A command of the queue. -/
inductive TargetCommand
  | setBreakpoint (place : Place)
  | deleteBreakpoint (breakpointNum : Int)
  | continue_ (reverse : Bool)
  | run
  /-- `PrintCmd` for `$pc`. -/
  | printPc
  /-- `RecordCmd`. -/
  | record
  | recordStop
  /-- `RestoreCmd`: the data is in a file. -/
  | restore (data : List UInt8) (address : UInt64)
  /-- `PrintCmd` for a call of `malloc`, or of `free`. -/
  | malloc (size : UInt64)
  | free (address : UInt64)
  deriving DecidableEq, Repr

/-- The memory of the program is written, or may be. -/
def TargetCommand.changes : TargetCommand → Bool
  | .restore _ _ => true
  | .malloc _ => true
  | .free _ => true
  | _ => false

/-- What the response handler of a command makes of the answer. -/
inductive Answer
  /-- Nothing is handed on. -/
  | done
  /-- `SetBreakpointRH`; null if it finds no breakpoint. -/
  | breakpoint (found : Option (Nat × UInt64))
  /-- `PrintRH`; null if it is no `UInt64`. -/
  | value (value : Option UInt64)
  /-- `ContinueRH`: the program is not being run. -/
  | notRun
  /-- The program runs, and these lines come up to the next prompt. -/
  | output (lines : List (List Char))
  deriving DecidableEq, Repr

/-! ## What can be seen of gdb -/

/-- The program counter, and the memory and all other registers. -/
structure Moment (M : Type) where
  pc : UInt64
  memory : M
  deriving DecidableEq, Repr

/-- Breakpoints, and the last number that one has had; where the program is, if there is one; and
what there is of the record in front of that, latest first. -/
structure Target (M : Type) where
  breakpoints : List (Nat × UInt64)
  lastNumber : Nat
  now : Option (Moment M)
  recording : Bool
  past : List (Moment M)

namespace Target

variable {M : Type}

def withBreakpoint (t : Target M) (num : Nat) (address : UInt64) : Target M :=
  { t with breakpoints := t.breakpoints ++ [(num, address)], lastNumber := num }

def withoutBreakpoint (t : Target M) (breakpointNum : Int) : Target M :=
  { t with breakpoints := t.breakpoints.filter fun b => (b.1 : Int) ≠ breakpointNum }

def isBreakpoint (t : Target M) (moment : Moment M) : Bool :=
  t.breakpoints.any fun b => b.2 = moment.pc

/-- What gdb can say: a breakpoint and an address are where the program is, and only a program
that is not there any more has ended. -/
def Announces {chars : CharData} (t : Target M) : Announcement chars → Prop
  | .breakpoint num address _ => ∃ moment, t.now = some moment ∧
      (num, moment.pc) ∈ t.breakpoints ∧ address.value = moment.pc
  | .source line => ∃ moment, t.now = some moment ∧ (line.num, moment.pc) ∈ t.breakpoints
  | .signal _ frame => ∃ moment, t.now = some moment ∧
      ∀ line ∈ frame, line.address.value = moment.pc
  | .noHistory frame => ∃ moment, t.now = some moment ∧
      ∀ line ∈ frame, line.address.value = moment.pc
  | .exited | .exitedWithCode _ | .inferiorExited _ _ | .inferiorExitedWithCode _ _ _
  | .terminated _ => t.now = none

/-- Lines in which there is at most one stop, and it is announced as it is. -/
def Reports (chars : CharData) (t : Target M) (lines : List (List Char)) : Prop :=
  (∀ line ∈ lines, Unclaimed chars line) ∨
    ∃ (announcement : Announcement chars) (before after : List (List Char)),
      lines = before ++ (announcement.lines ++ after) ∧
      (∀ line ∈ before, Unclaimed chars line) ∧ (∀ line ∈ after, Silent chars line) ∧
      t.Announces announcement

end Target

/-! ## gdb -/

/-- gdb and the program. What happens is up to the choice as far as the command leaves it open;
`passed` are the moments through which a program goes that goes forward. -/
structure Debugger (M : Type) where
  State : Type
  Choice : Type
  execute : State → Choice → TargetCommand → Option (Answer × State)
  view : State → Target M
  passed : State → Choice → List (Moment M)

/-- What a command makes of the memory, with its answer. -/
abbrev Effect (M : Type) := TargetCommand → M → Answer → M → Prop

namespace Debugger

variable {M : Type}

/-- What the manual of gdb says of its commands. -/
structure Documented (chars : CharData) (effect : Effect M) (gdb : Debugger M) : Prop where
  /-- A breakpoint is refused, or has a number behind all others, which is an `int`. One for an
  address is at the address. -/
  setBreakpoint : ∀ {g χ place answer g'},
    gdb.execute g χ (.setBreakpoint place) = some (answer, g') →
    (answer = .breakpoint none ∧ gdb.view g' = gdb.view g) ∨
    ∃ num address, answer = .breakpoint (some (num, address)) ∧ (gdb.view g).lastNumber < num ∧
      num < 2 ^ 31 ∧ (∀ a, place = .address a → address = a) ∧
      gdb.view g' = (gdb.view g).withBreakpoint num address
  deleteBreakpoint : ∀ {g χ breakpointNum answer g'},
    gdb.execute g χ (.deleteBreakpoint breakpointNum) = some (answer, g') →
    gdb.view g' = (gdb.view g).withoutBreakpoint breakpointNum
  /-- Without a program, `continue` does nothing, in both directions. -/
  notRun : ∀ {g χ reverse answer g'}, gdb.execute g χ (.continue_ reverse) = some (answer, g') →
    (gdb.view g).now = none → answer = .notRun ∧ gdb.view g' = gdb.view g
  /-- The program goes on through the moments of `passed`, or has ended on the way. The oldest
  moments of a record may be dropped. -/
  continue_ : ∀ {g χ answer g' moment}, gdb.execute g χ (.continue_ false) = some (answer, g') →
    (gdb.view g).now = some moment →
    ∃ lines now recording past, answer = .output lines ∧ (gdb.view g').Reports chars lines ∧
      gdb.view g' = { gdb.view g with now := now, recording := recording, past := past } ∧
      (now = none ∧ recording = false ∧ past = [] ∨
        now = some ((gdb.passed g χ).getLastD moment) ∧ recording = (gdb.view g).recording ∧
        past <+: ((gdb.passed g χ).reverse ++ moment :: (gdb.view g).past).tail ∧
        (recording = false → past = []))
  /-- gdb goes back over moments without a breakpoint; at the beginning of the record, or if it
  says nothing, it may stay. -/
  reverseContinue : ∀ {g χ answer g' moment},
    gdb.execute g χ (.continue_ true) = some (answer, g') → (gdb.view g).now = some moment →
    ∃ lines, answer = .output lines ∧ (gdb.view g').Reports chars lines ∧
      (gdb.view g' = gdb.view g ∧
          ((gdb.view g).past = [] ∨ ∀ line ∈ lines, Unclaimed chars line) ∨
        ∃ skipped now past, (gdb.view g).past = skipped ++ now :: past ∧
          (∀ m ∈ skipped, (gdb.view g).isBreakpoint m = false) ∧
          gdb.view g' = { gdb.view g with now := some now, past := past })
  /-- The program is started anew. -/
  run : ∀ {g χ answer g'}, gdb.execute g χ .run = some (answer, g') →
    ∃ lines now, answer = .output lines ∧ (gdb.view g').Reports chars lines ∧
      gdb.view g' = { gdb.view g with now := now, recording := false, past := [] }
  printPc : ∀ {g χ answer g'}, gdb.execute g χ .printPc = some (answer, g') →
    answer = .value ((gdb.view g).now.map Moment.pc) ∧ gdb.view g' = gdb.view g
  /-- There may be no record for this program, or there is one already. -/
  record : ∀ {g χ answer g'}, gdb.execute g χ .record = some (answer, g') →
    gdb.view g' = gdb.view g ∨ (gdb.view g).recording = false ∧
      gdb.view g' = { gdb.view g with recording := true, past := [] }
  /-- The program stays where it is. -/
  recordStop : ∀ {g χ answer g'}, gdb.execute g χ .recordStop = some (answer, g') →
    gdb.view g' = { gdb.view g with recording := false, past := [] }
  /-- Without a record, the memory is changed as the command does it, and the program stays where
  it is. With one, the record is lost in part. -/
  change : ∀ {g χ command answer g'}, command.changes = true →
    gdb.execute g χ command = some (answer, g') →
    (gdb.view g').breakpoints = (gdb.view g).breakpoints ∧
    (gdb.view g').lastNumber = (gdb.view g).lastNumber ∧
    ∀ moment, (gdb.view g).now = some moment → (gdb.view g).recording = false →
      ∃ memory, effect command moment.memory answer memory ∧
        gdb.view g' = { gdb.view g with now := some ⟨moment.pc, memory⟩ }

end Debugger

end InMemoryFuzzing.Gdb

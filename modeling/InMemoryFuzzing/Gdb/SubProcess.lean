import InMemoryFuzzing.Base.TSys
import InMemoryFuzzing.Platform.DotNet

/-!
# `GDBSubProcess`

Commands are queued by any thread and written when gdb is at its prompt; a reader thread
takes the output of gdb apart and hands the lines to the response handlers. Everything but
the lines of the reader is guarded by the lock on `_commands`.

A step is what happens up to the next point where something outside decides: another
thread may take the lock, a character may arrive, or a handler or callback that has been
called under the lock may queue a command, return or raise. What is running under the lock
is a stack of frames. Writing to gdb does not raise.

`history` and the command in a line are not in the source; they record what has happened.
-/

namespace InMemoryFuzzing.Gdb

open Base Platform DotNet

/-! ## The state -/

/-- `GDBCommand`: the how manieth it is that has been queued, and whether it has a response
handler. -/
structure GDBCommand where
  number : Nat
  responseHandler : Bool
  deriving DecidableEq, Repr

inductive HandleResponseEnum
  | handled
  | notHandled
  | requestLine
  deriving DecidableEq, Repr

/-- A line, and the last command that had been written when its line break was read. -/
structure Line where
  text : List Char
  behind : Option GDBCommand
  deriving DecidableEq, Repr

/-- What has happened: a command is queued or written, `(gdb)` is recognised, the response
handler of a command is given the lines or has returned `Handled`, `CommandFinished` is
raised. -/
inductive Event
  | enqueued (c : GDBCommand)
  | prompt
  | written (c : GDBCommand)
  | called (c : GDBCommand) (lines : List Line)
  | handled (c : GDBCommand)
  | finished (c : GDBCommand)
  deriving DecidableEq, Repr

/-- Where the reader is: at `ReadChar`, in front of `ReceivedNewLine` with the character it
has read, in front of the lock at the end of the loop, or behind the loop. -/
inductive Reader
  | reading
  | newLine (read : Char)
  | check
  | ended
  deriving DecidableEq, Repr

/-- Who has the lock: another thread in `ProcessQueue`, or the reader, in the one or the
other `ReceivedNewLine` or in `ProcessQueue`. -/
inductive Owner
  | other
  | newLine (read : Char)
  | prompt
  | promptQueue
  deriving DecidableEq, Repr

/-- A call under the lock that has not returned. -/
inductive Frame
  /-- `CommandFinished` in `ProcessQueue`. -/
  | finishing (c : GDBCommand)
  /-- `HandleResponse` of the command. -/
  | handling (c : GDBCommand)
  /-- `CommandFinished` in `ReceivedNewLine`, because the handler of `c` has returned
  `Handled`. -/
  | completing (c : GDBCommand)
  /-- `HandleResponse` of a permanent handler, and how many come behind it. -/
  | permanent (left : Nat)
  deriving DecidableEq, Repr

structure SubProcess where
  commands : List GDBCommand
  currentCommand : Option GDBCommand
  gdbReadyForInput : Bool
  /-- The calls of `QueueCommand` that have yet to call `ProcessQueue`. -/
  queueing : Nat
  reader : Reader
  currentLine : List Char
  lastLine : Line
  currentLines : List Line
  lock : Option Owner
  frames : List Frame
  history : List Event
  deriving DecidableEq, Repr

/-! ## The history -/

def Event.enqueued? : Event → Option GDBCommand
  | .enqueued c => some c
  | _ => none

def Event.written? : Event → Option GDBCommand
  | .written c => some c
  | _ => none

/-- The commands that have been queued. -/
def enqueuedOf (history : List Event) : List GDBCommand := history.filterMap Event.enqueued?

/-- The commands that have been written. -/
def writtenOf (history : List Event) : List GDBCommand := history.filterMap Event.written?

def lastWritten (history : List Event) : Option GDBCommand := (writtenOf history).getLast?

namespace SubProcess

/-! ## The queue -/

/-- `Enqueue`. -/
def enqueue (responseHandler : Bool) (s : SubProcess) : SubProcess :=
  let c : GDBCommand := ⟨(enqueuedOf s.history).length, responseHandler⟩
  { s with
    commands := s.commands ++ [c]
    history := s.history ++ [Event.enqueued c] }

/-- `ProcessQueue`, up to `CommandFinished`. -/
def processQueue (s : SubProcess) : SubProcess :=
  match s.commands with
  | [] => s
  | c :: rest =>
      if s.gdbReadyForInput then
        let s := { s with
          gdbReadyForInput := false
          commands := rest
          currentCommand := some c
          history := s.history ++ [Event.written c] }
        -- without a response handler the command is finished, and forgotten behind that
        if c.responseHandler then s
        else { s with
          frames := .finishing c :: s.frames
          history := s.history ++ [Event.finished c] }
      else s

/-- `ProcessQueue` has returned, unless there is a frame: the lock is released, and the reader
goes on. -/
def leaveQueue (s : SubProcess) : SubProcess :=
  match s.frames, s.lock with
  | [], some .promptQueue => { s with lock := none, reader := .reading }
  | [], some .other => { s with lock := none }
  | _, _ => s

/-! ## `ReceivedNewLine` -/

/-- An exception leaves the loop of the reader. -/
def die (s : SubProcess) : SubProcess := { s with lock := none, frames := [], reader := .ended }

/-- `ReceivedNewLine` has returned. -/
def received (s : SubProcess) : SubProcess :=
  match s.lock with
  | some (.newLine read) =>
      -- the loop goes on with `currentLine.Append (read)`
      { s with
        lock := none
        frames := []
        reader := .check
        currentLine := s.currentLine ++ [read] }
  -- at the prompt `ProcessQueue` comes next, under the same lock
  | _ => { s with lock := some .promptQueue, frames := [] }

/-- The catch clause of `ReceivedNewLine`, which uses the response handler of the current
command. -/
def caught (s : SubProcess) : SubProcess :=
  match s.currentCommand with
  -- it names `_currentCommand.ResponseHandler`, which raises again where one of them is null
  | some c => if c.responseHandler then s.received else s.die
  | none => s.die

/-- A current command without response handler is forgotten. -/
def forgetCurrent (s : SubProcess) : SubProcess :=
  match s.currentCommand with
  | some c => if c.responseHandler then s else { s with currentCommand := none }
  | none => s

/-- `ReceivedNewLine`, up to the first handler. -/
def receivedNewLine (permanentHandlers : Nat) (s : SubProcess) : SubProcess :=
  let s := s.forgetCurrent
  match s.currentCommand with
  | some c =>
      { s with
        frames := [.handling c]
        history := s.history ++ [Event.called c s.currentLines] }
  | none =>
      match permanentHandlers with
      | 0 => s.received
      | left + 1 => { s with frames := [.permanent left] }

/-! ## The reader -/

/-- The last line is finished. -/
def addLastLine (s : SubProcess) : SubProcess :=
  { s with
    currentLines := s.currentLines ++ [s.lastLine]
    lastLine := ⟨[], none⟩ }

/-- The loop of `ReadThread` up to the first lock. -/
def readChar (read : Char) (s : SubProcess) : SubProcess :=
  if read = '\n' ∨ read = '\r' then
    -- an empty line: `continue`
    if trim s.currentLine = [] then s
    else
      { s with
        lastLine := ⟨s.currentLine, lastWritten s.history⟩
        currentLine := []
        reader := .check }
  else if s.currentLine = [] ∧ read = ' ' then
    -- a space after a line break: the last line goes on
    { s with
      currentLine := s.lastLine.text
      lastLine := ⟨[], none⟩
      reader := .check }
  else if s.currentLine = [] ∧ s.lastLine.text ≠ [] then
    -- only now the last line is known to be complete
    { s.addLastLine with reader := .newLine read }
  else { s with currentLine := s.currentLine ++ [read], reader := .check }

/-- The lock at the end of the loop: is it the prompt? -/
def checkPrompt (permanentHandlers : Nat) (s : SubProcess) : SubProcess :=
  if trim s.currentLine = "(gdb)".toList then
    let s := { s with
      currentLine := []
      gdbReadyForInput := true
      lock := some .prompt
      history := s.history ++ [Event.prompt] }
    let s := if s.lastLine.text ≠ [] then s.addLastLine else s
    s.receivedNewLine permanentHandlers
  else { s with reader := .reading }

/-! ## Handlers and callbacks -/

/-- The innermost call returns; only a handler has an answer. -/
def returned (answer : HandleResponseEnum) (s : SubProcess) : Option SubProcess :=
  match s.frames with
  | .finishing _ :: rest => some { s with currentCommand := none, frames := rest }.leaveQueue
  | [.handling c] =>
      match answer with
      -- the branch is empty but for a comment: the lines stay where they are
      | .notHandled => some s.received
      | .requestLine => some (if s.gdbReadyForInput then s.caught else s.received)
      | .handled =>
          let s := { s with history := s.history ++ [Event.handled c] }
          -- `CommandFinished` of the field, which a callback may have replaced or set to null
          match s.currentCommand with
          | some d => some { s with
              frames := [.completing c]
              history := s.history ++ [Event.finished d] }
          | none => some s.caught
  | [.completing _] => some { s with currentCommand := none, currentLines := [] }.received
  | [.permanent left] =>
      match answer with
      | .handled => some { s with currentLines := [] }.received
      -- here no clause catches the exception
      | .requestLine => some (if s.gdbReadyForInput then s.die else s.received)
      | .notHandled =>
          match left with
          | 0 => some s.received
          | left + 1 => some { s with frames := [.permanent left] }
  | _ => none

/-- The innermost call raises. -/
def raised (s : SubProcess) : Option SubProcess :=
  match s.frames with
  | [.finishing _] =>
      match s.lock with
      | some .promptQueue => some s.die
      | _ => some { s with lock := none, frames := [] }
  -- the callback that has queued the command gets the exception
  | .finishing _ :: rest => some { s with frames := rest }
  | [.handling _] => some s.caught
  | [.completing _] => some s.caught
  | [.permanent _] => some s.die
  | _ => none

end SubProcess

/-! ## The system -/

inductive Label
  /-- Another thread calls `QueueCommand`. -/
  | enqueue (responseHandler : Bool)
  /-- It goes on with `ProcessQueue`. -/
  | processQueue
  /-- gdb has written a character. -/
  | read (c : Char)
  /-- The reader takes the lock. -/
  | enter
  /-- The reader calls `ProcessQueue`, at the prompt. -/
  | promptQueue
  /-- gdb has ended. -/
  | stop
  /-- The innermost call calls `QueueCommand`. -/
  | callback (responseHandler : Bool)
  | answer (a : HandleResponseEnum)
  | raise
  deriving DecidableEq, Repr

open SubProcess in
def SubProcess.step (permanentHandlers : Nat) (s : SubProcess) : Label → Option SubProcess
  | .enqueue responseHandler =>
      if s.lock = none then some { s.enqueue responseHandler with queueing := s.queueing + 1 }
      else none
  | .processQueue =>
      if s.lock = none ∧ 0 < s.queueing then
        some ({ s with queueing := s.queueing - 1, lock := some .other }.processQueue.leaveQueue)
      else none
  | .read c => if s.reader = .reading then some (s.readChar c) else none
  | .enter =>
      if s.lock = none then
        match s.reader with
        | .newLine read =>
            some ({ s with lock := some (.newLine read) }.receivedNewLine permanentHandlers)
        | .check => some (s.checkPrompt permanentHandlers)
        | _ => none
      else none
  | .promptQueue =>
      if s.lock = some .promptQueue ∧ s.frames = [] then some s.processQueue.leaveQueue else none
  | .stop => if s.reader = .reading then some { s with reader := .ended } else none
  | .callback responseHandler =>
      if s.frames = [] then none else some (s.enqueue responseHandler).processQueue
  | .answer a => s.returned a
  | .raise => s.raised

/-- What the reader does with the lock. -/
theorem SubProcess.enter_cases {s s' : SubProcess} {permanentHandlers : Nat}
    (h : s.step permanentHandlers .enter = some s') :
    s.lock = none ∧
      ((∃ read, s.reader = .newLine read ∧
          s' = { s with lock := some (.newLine read) }.receivedNewLine permanentHandlers) ∨
        (s.reader = .check ∧ s' = s.checkPrompt permanentHandlers)) := by
  obtain ⟨hlock, hstep⟩ := Option.ite_none_right_eq_some.mp h
  refine ⟨hlock, ?_⟩
  cases hreader : s.reader with
  | reading =>
      rw [hreader] at hstep
      cases hstep
  | newLine read =>
      rw [hreader] at hstep
      exact Or.inl ⟨read, rfl, (Option.some.inj hstep).symm⟩
  | check =>
      rw [hreader] at hstep
      exact Or.inr ⟨rfl, (Option.some.inj hstep).symm⟩
  | ended =>
      rw [hreader] at hstep
      cases hstep

/-- Before the process is started. -/
def SubProcess.initial : SubProcess :=
  ⟨[], none, false, 0, .reading, [], ⟨[], none⟩, [], none, [], []⟩

/-- The sub process, with this many permanent response handlers. -/
def subProcess (permanentHandlers : Nat) : TSys SubProcess Label where
  init s := s = SubProcess.initial
  step := SubProcess.step permanentHandlers

end InMemoryFuzzing.Gdb

import InMemoryFuzzing.Gdb.FrameLogic

/-!
# What becomes of the characters that gdb writes

The reader of `GDBSubProcess` keeps two lines: the one to which it appends, and the last one,
which is complete only when the next character is known not to continue it. A record is kept of
the characters that have been read, and of the lines and prompts that have been made of them.

Apart from reading a character and from the prompt, no step changes the two lines and the
character at hand taken together (`Quiet`).
-/

namespace InMemoryFuzzing.Gdb

open Base Platform DotNet

/-! ## The record -/

/-- A line appended to `currentLines`, or `(gdb)`. -/
inductive Item
  | line (text : List Char)
  | prompt
  deriving DecidableEq, Repr

def Item.text : Item → List Char
  | .line text => text
  | .prompt => "(gdb)".toList

def Event.prompt? : Event → Option Item
  | .prompt => some .prompt
  | _ => none

namespace SubProcess

/-- The character that a pass has read and not yet appended. -/
def pending (s : SubProcess) : List Char :=
  match s.reader with
  | .newLine read => [read]
  | _ => []

/-- The prompts and lines of a step. Handlers only clear the lines. -/
def taken (s s' : SubProcess) : List Item :=
  (s'.history.drop s.history.length).filterMap Event.prompt? ++
    (s'.currentLines.drop s.currentLines.length).map fun line => .line line.text

end SubProcess

/-- What the reader has read and made of it. -/
structure Reading where
  chars : List Char
  items : List Item
  /-- The character at hand when an exception left the loop. -/
  lost : List Char
  deriving DecidableEq, Repr

def Label.char? : Label → List Char
  | .read c => [c]
  | _ => []

def Reading.note (g : Reading) (s : SubProcess) (label : Label) (s' : SubProcess) : Reading where
  chars := g.chars ++ label.char?
  items := g.items ++ s.taken s'
  lost := if s'.reader = .ended ∧ s.reader ≠ .ended then s.pending else g.lost

/-- The sub process with the record of its reader. -/
def readingSystem (permanentHandlers : Nat) : TSys (SubProcess × Reading) Label :=
  (subProcess permanentHandlers).recorded ⟨[], [], []⟩ Reading.note

/-! ## Steps that leave the text alone -/

/-- The lock tells where the reader is. -/
structure Tied (s : SubProcess) : Prop where
  newLine : ∀ read, s.lock = some (.newLine read) → s.reader = .newLine read
  prompt : s.lock = some .prompt → s.reader = .check
  promptQueue : s.lock = some .promptQueue → s.reader = .check

/-- The reader does not have the lock. -/
theorem Tied.of_other {s : SubProcess} (h : ∀ owner, s.lock = some owner → owner = .other) :
    Tied s where
  newLine _ hlock := nomatch h _ hlock
  prompt hlock := nomatch h _ hlock
  promptQueue hlock := nomatch h _ hlock

theorem Shape.lock_other {s : SubProcess} (h : Shape s) (hreader : s.reader = .reading) :
    ∀ owner, s.lock = some owner → owner = .other := by
  intro owner hlock
  by_contra hother
  exact (h.reader owner hlock hother).1 hreader

/-- Where the reader goes with its line: it stays, it appends the character at hand, it goes back
to `ReadChar`, or it leaves the loop. -/
inductive Moves (s s' : SubProcess) : Prop
  | stays : s'.reader = s.reader → s'.currentLine = s.currentLine → Moves s s'
  | appends (read : Char) : s.reader = .newLine read → s'.reader = .check →
      s'.currentLine = s.currentLine ++ [read] → Moves s s'
  | passes : s.reader = .check → s'.reader = .reading → s'.currentLine = s.currentLine → Moves s s'
  | leaves : s'.reader = .ended → s'.currentLine = s.currentLine → Moves s s'

/-- No character is read, no line is completed and no prompt recognised. -/
structure Quiet (s s' : SubProcess) : Prop where
  lastLine : s'.lastLine = s.lastLine
  lines : s'.currentLines = s.currentLines ∨ s'.currentLines = []
  history : ∃ events, s'.history = s.history ++ events ∧ events.filterMap Event.prompt? = []
  moves : Moves s s'
  tied : Tied s'

/-! ### One after the other -/

theorem lines_trans {before between after : List Line} (h : between = before ∨ between = [])
    (h' : after = between ∨ after = []) : after = before ∨ after = [] := by
  rcases h' with rfl | rfl
  · exact h
  · exact .inr rfl

theorem events_trans {before between after : List Event}
    (h : ∃ events, between = before ++ events ∧ events.filterMap Event.prompt? = [])
    (h' : ∃ events, after = between ++ events ∧ events.filterMap Event.prompt? = []) :
    ∃ events, after = before ++ events ∧ events.filterMap Event.prompt? = [] := by
  obtain ⟨events, rfl, hnone⟩ := h
  obtain ⟨events', rfl, hnone'⟩ := h'
  exact ⟨events ++ events', List.append_assoc .., by
    rw [List.filterMap_append, hnone, hnone', List.append_nil]⟩

/-- The fields that the functions of the queue leave alone. -/
structure SameReader (s s' : SubProcess) : Prop where
  lastLine : s'.lastLine = s.lastLine
  currentLine : s'.currentLine = s.currentLine
  lines : s'.currentLines = s.currentLines ∨ s'.currentLines = []
  reader : s'.reader = s.reader
  lock : s'.lock = s.lock
  history : ∃ events, s'.history = s.history ++ events ∧ events.filterMap Event.prompt? = []

namespace SameReader

variable {s t s' : SubProcess}

/-- Nothing happens that the reader notices. -/
theorem of_same (hlast : s'.lastLine = s.lastLine) (hcurrent : s'.currentLine = s.currentLine)
    (hlines : s'.currentLines = s.currentLines) (hreader : s'.reader = s.reader)
    (hlock : s'.lock = s.lock) (hhistory : s'.history = s.history) : SameReader s s' :=
  ⟨hlast, hcurrent, .inl hlines, hreader, hlock, [], by rw [hhistory, List.append_nil], rfl⟩

theorem of_events (hlast : s'.lastLine = s.lastLine) (hcurrent : s'.currentLine = s.currentLine)
    (hlines : s'.currentLines = s.currentLines) (hreader : s'.reader = s.reader)
    (hlock : s'.lock = s.lock) {events : List Event} (hhistory : s'.history = s.history ++ events)
    (hevents : events.filterMap Event.prompt? = []) : SameReader s s' :=
  ⟨hlast, hcurrent, .inl hlines, hreader, hlock, events, hhistory, hevents⟩

theorem refl (s : SubProcess) : SameReader s s := of_same rfl rfl rfl rfl rfl rfl

theorem enqueue (responseHandler : Bool) (s : SubProcess) :
    SameReader s (s.enqueue responseHandler) := of_events rfl rfl rfl rfl rfl rfl rfl

theorem processQueue (s : SubProcess) : SameReader s s.processQueue := by
  unfold SubProcess.processQueue
  cases s.commands with
  | nil => exact refl s
  | cons c rest =>
      dsimp only
      cases s.gdbReadyForInput with
      | false => exact refl s
      | true =>
          cases c.responseHandler with
          | true => exact of_events rfl rfl rfl rfl rfl rfl rfl
          | false => exact of_events rfl rfl rfl rfl rfl (List.append_assoc ..) rfl

theorem forgetCurrent (s : SubProcess) : SameReader s s.forgetCurrent := by
  unfold SubProcess.forgetCurrent
  split
  · split
    · exact refl s
    · exact of_same rfl rfl rfl rfl rfl rfl
  · exact refl s

theorem trans (h : SameReader s t) (h' : SameReader t s') : SameReader s s' where
  lastLine := h'.lastLine.trans h.lastLine
  currentLine := h'.currentLine.trans h.currentLine
  lines := lines_trans h.lines h'.lines
  reader := h'.reader.trans h.reader
  lock := h'.lock.trans h.lock
  history := events_trans h.history h'.history

theorem tied (h : SameReader s s') (htied : Tied s) : Tied s' := by
  constructor
  · intro read hnew
    rw [h.reader]
    exact htied.newLine read (h.lock ▸ hnew)
  · intro hprompt
    rw [h.reader]
    exact htied.prompt (h.lock ▸ hprompt)
  · intro hprompt
    rw [h.reader]
    exact htied.promptQueue (h.lock ▸ hprompt)

theorem receiving (h : SameReader s s') (hreceiving : s.Receiving) : s'.Receiving := by
  obtain ⟨owner, hlock, howner⟩ := hreceiving
  exact ⟨owner, h.lock.trans hlock, howner⟩

theorem quiet (h : SameReader s s') (htied : Tied s) : Quiet s s' :=
  ⟨h.lastLine, h.lines, h.history, .stays h.reader h.currentLine, h.tied htied⟩

/-- Such a step in front of another one. -/
theorem andThen (h : SameReader s t) (h' : Quiet t s') : Quiet s s' where
  lastLine := h'.lastLine.trans h.lastLine
  lines := lines_trans h.lines h'.lines
  history := events_trans h.history h'.history
  tied := h'.tied
  moves := by
    have hline := h.currentLine
    have hreader := h.reader
    cases h'.moves with
    | stays hr hl => exact .stays (hr.trans hreader) (hl.trans hline)
    | appends read hr hr' hl => exact .appends read (hreader ▸ hr) hr' (hline ▸ hl)
    | passes hr hr' hl => exact .passes (hreader ▸ hr) hr' (hl.trans hline)
    | leaves hr hl => exact .leaves hr (hl.trans hline)

end SameReader

namespace Quiet

variable {s s' : SubProcess}

theorem leaveQueue (h : Tied s) : Quiet s s.leaveQueue := by
  unfold SubProcess.leaveQueue
  split
  · -- the reader goes on behind `ProcessQueue`
    exact ⟨rfl, .inl rfl, ⟨[], by simp, rfl⟩, .passes (h.promptQueue ‹_›) rfl rfl, nofun, nofun, nofun⟩
  · exact ⟨rfl, .inl rfl, ⟨[], by simp, rfl⟩, .stays rfl rfl, nofun, nofun, nofun⟩
  · exact (SameReader.refl s).quiet h

theorem die (s : SubProcess) : Quiet s s.die :=
  ⟨rfl, .inl rfl, ⟨[], by simp [SubProcess.die], rfl⟩, .leaves rfl rfl, nofun, nofun, nofun⟩

theorem received (h : Tied s) (hreceiving : s.Receiving) : Quiet s s.received := by
  obtain ⟨owner, hlock, howner⟩ := hreceiving
  cases owner with
  | newLine read =>
      have hnew := h.newLine read hlock
      rw [SubProcess.received, hlock]
      exact ⟨rfl, .inl rfl, ⟨[], by simp, rfl⟩, .appends read hnew rfl rfl, nofun, nofun, nofun⟩
  | prompt =>
      have hcheck := h.prompt hlock
      rw [SubProcess.received, hlock]
      exact ⟨rfl, .inl rfl, ⟨[], by simp, rfl⟩, .stays rfl rfl, nofun, nofun, fun _ => hcheck⟩
  | other => cases howner
  | promptQueue => cases howner

theorem caught (h : Tied s) (hreceiving : s.Receiving) : Quiet s s.caught := by
  unfold SubProcess.caught
  split
  · split
    · exact received h hreceiving
    · exact die s
  · exact die s

theorem receivedNewLine (h : Tied s) (hreceiving : s.Receiving) (permanentHandlers : Nat) :
    Quiet s (s.receivedNewLine permanentHandlers) := by
  have hforget := SameReader.forgetCurrent s
  have htied := hforget.tied h
  refine hforget.andThen ?_
  unfold SubProcess.receivedNewLine
  dsimp only
  cases s.forgetCurrent.currentCommand with
  | some c => exact SameReader.quiet (.of_events rfl rfl rfl rfl rfl rfl rfl) htied
  | none =>
      cases permanentHandlers with
      | zero => exact received htied (hforget.receiving hreceiving)
      | succ left => exact SameReader.quiet (.of_same rfl rfl rfl rfl rfl rfl) htied

/-- The lock is taken first. -/
theorem locked {queueing : Nat} {lock : Option Owner}
    (h : Quiet { s with queueing := queueing, lock := lock } s') : Quiet s s' := by
  refine ⟨h.lastLine, h.lines, h.history, ?_, h.tied⟩
  cases h.moves with
  | stays hr hl => exact .stays hr hl
  | appends read hr hr' hl => exact .appends read hr hr' hl
  | passes hr hr' hl => exact .passes hr hr' hl
  | leaves hr hl => exact .leaves hr hl

/-- A handler or callback returns. -/
theorem returned (h : Tied s) (hshape : Shape s) {answer : HandleResponseEnum}
    (hstep : s.returned answer = some s') : Quiet s s' := by
  unfold SubProcess.returned at hstep
  split at hstep
  · rename_i rest hframes
    cases hstep
    have hsame : SameReader s { s with currentCommand := none, frames := rest } :=
      SameReader.of_same rfl rfl rfl rfl rfl rfl
    exact hsame.andThen (leaveQueue (hsame.tied h))
  · rename_i c hframes
    have hreceiving : s.Receiving := hshape.inside _ (hframes ▸ List.mem_singleton_self _) rfl
    cases answer with
    | notHandled =>
        cases hstep
        exact received h hreceiving
    | requestLine =>
        cases hstep
        split
        · exact caught h hreceiving
        · exact received h hreceiving
    | handled =>
        have hhandled : SameReader s { s with history := s.history ++ [Event.handled c] } :=
          SameReader.of_events rfl rfl rfl rfl rfl rfl rfl
        dsimp only at hstep
        split at hstep
        · cases hstep
          exact hhandled.andThen
            (SameReader.quiet (.of_events rfl rfl rfl rfl rfl rfl rfl) (hhandled.tied h))
        · cases hstep
          exact hhandled.andThen (caught (hhandled.tied h) (hhandled.receiving hreceiving))
  · rename_i hframes
    have hreceiving : s.Receiving := hshape.inside _ (hframes ▸ List.mem_singleton_self _) rfl
    cases hstep
    have hcleared : SameReader s { s with currentCommand := none, currentLines := [] } :=
      ⟨rfl, rfl, .inr rfl, rfl, rfl, [], (List.append_nil _).symm, rfl⟩
    exact hcleared.andThen (received (hcleared.tied h) (hcleared.receiving hreceiving))
  · rename_i left hframes
    have hreceiving : s.Receiving := hshape.inside _ (hframes ▸ List.mem_singleton_self _) rfl
    cases answer with
    | handled =>
        cases hstep
        have hcleared : SameReader s { s with currentLines := [] } :=
          ⟨rfl, rfl, .inr rfl, rfl, rfl, [], (List.append_nil _).symm, rfl⟩
        exact hcleared.andThen (received (hcleared.tied h) (hcleared.receiving hreceiving))
    | requestLine =>
        cases hstep
        split
        · exact die s
        · exact received h hreceiving
    | notHandled =>
        cases left with
        | zero =>
            cases hstep
            exact received h hreceiving
        | succ left =>
            cases hstep
            exact SameReader.quiet (.of_same rfl rfl rfl rfl rfl rfl) h
  · cases hstep

/-- A handler or callback raises. -/
theorem raised (h : Tied s) (hshape : Shape s) (hstep : s.raised = some s') : Quiet s s' := by
  unfold SubProcess.raised at hstep
  split at hstep
  · split at hstep
    · cases hstep
      exact die s
    · cases hstep
      exact ⟨rfl, .inl rfl, ⟨[], by simp, rfl⟩, .stays rfl rfl, nofun, nofun, nofun⟩
  · cases hstep
    exact SameReader.quiet (.of_same rfl rfl rfl rfl rfl rfl) h
  · rename_i hframes
    cases hstep
    exact caught h (hshape.inside _ (hframes ▸ List.mem_singleton_self _) rfl)
  · rename_i hframes
    cases hstep
    exact caught h (hshape.inside _ (hframes ▸ List.mem_singleton_self _) rfl)
  · cases hstep
    exact die s
  · cases hstep

end Quiet

/-! ## Steps -/

/-- Every step but reading a character, and but the prompt, is quiet. -/
theorem quiet_of_step {s s' : SubProcess} {permanentHandlers : Nat} {label : Label} (h : Tied s)
    (hshape : Shape s) (hstep : s.step permanentHandlers label = some s') :
    (∃ c, label = .read c ∧ s.reader = .reading ∧ s' = s.readChar c) ∨
    (label = .enter ∧ s.lock = none ∧ s.reader = .check ∧ trim s.currentLine = "(gdb)".toList ∧
      s' = s.checkPrompt permanentHandlers) ∨
    (label.char? = [] ∧ Quiet s s') := by
  cases label with
  | enqueue responseHandler =>
      obtain ⟨-, heq⟩ := Option.ite_none_right_eq_some.mp hstep
      cases heq
      have hsame := SameReader.enqueue responseHandler s
      have hcount : SameReader (s.enqueue responseHandler)
          { s.enqueue responseHandler with queueing := s.queueing + 1 } :=
        SameReader.of_same rfl rfl rfl rfl rfl rfl
      exact .inr (.inr ⟨rfl, (hsame.trans hcount).quiet h⟩)
  | processQueue =>
      obtain ⟨⟨hlock, -⟩, heq⟩ := Option.ite_none_right_eq_some.mp hstep
      cases heq
      have hlocked : Tied { s with queueing := s.queueing - 1, lock := some .other } :=
        ⟨nofun, nofun, nofun⟩
      have hsame := SameReader.processQueue { s with queueing := s.queueing - 1, lock := some .other }
      have hquiet := hsame.andThen (Quiet.leaveQueue (hsame.tied hlocked))
      exact .inr (.inr ⟨rfl, hquiet.locked⟩)
  | read c =>
      obtain ⟨hreader, heq⟩ := Option.ite_none_right_eq_some.mp hstep
      cases heq
      exact .inl ⟨c, rfl, hreader, rfl⟩
  | enter =>
      obtain ⟨hlock, ⟨read, hnew, rfl⟩ | ⟨hcheck, rfl⟩⟩ := SubProcess.enter_cases hstep
      · have hlocked : Tied { s with lock := some (.newLine read) } :=
          ⟨fun read' heq => by cases heq; exact hnew, nofun, nofun⟩
        have hquiet := Quiet.receivedNewLine hlocked ⟨_, rfl, rfl⟩ permanentHandlers
        exact .inr (.inr ⟨rfl, hquiet.locked⟩)
      · by_cases hprompt : trim s.currentLine = "(gdb)".toList
        · exact .inr (.inl ⟨rfl, hlock, hcheck, hprompt, rfl⟩)
        · rw [SubProcess.checkPrompt, if_neg hprompt]
          have htied : Tied { s with reader := .reading } := .of_other fun owner howner => by
            rw [hlock] at howner
            cases howner
          exact .inr (.inr ⟨rfl, rfl, .inl rfl, ⟨[], by simp, rfl⟩, .passes hcheck rfl rfl, htied⟩)
  | promptQueue =>
      obtain ⟨-, heq⟩ := Option.ite_none_right_eq_some.mp hstep
      cases heq
      have hsame := SameReader.processQueue s
      exact .inr (.inr ⟨rfl, hsame.andThen (Quiet.leaveQueue (hsame.tied h))⟩)
  | stop =>
      obtain ⟨hreader, heq⟩ := Option.ite_none_right_eq_some.mp hstep
      cases heq
      have htied : Tied { s with reader := .ended } := .of_other (hshape.lock_other hreader)
      exact .inr (.inr ⟨rfl, rfl, .inl rfl, ⟨[], by simp, rfl⟩, .leaves rfl rfl, htied⟩)
  | callback responseHandler =>
      obtain ⟨-, heq⟩ := Option.ite_none_left_eq_some.mp hstep
      cases heq
      have hsame := (SameReader.enqueue responseHandler s).trans (SameReader.processQueue _)
      exact .inr (.inr ⟨rfl, hsame.quiet h⟩)
  | answer a => exact .inr (.inr ⟨rfl, Quiet.returned h hshape hstep⟩)
  | raise => exact .inr (.inr ⟨rfl, Quiet.raised h hshape hstep⟩)

end InMemoryFuzzing.Gdb

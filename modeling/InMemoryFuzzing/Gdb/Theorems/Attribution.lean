import InMemoryFuzzing.Gdb.FrameLogic
import InMemoryFuzzing.Gdb.Theorems.Commands

/-!
# Which lines a response handler is given

The lines wait in one list, which is cleared only when a handler returns `Handled`, while the
current command changes whenever one is written. So a handler is given lines that have been
received behind its own command as long as no line waits when a command with a response
handler takes over (`lines_attributed`).
-/

namespace InMemoryFuzzing.Gdb

open Base Platform DotNet

namespace SubProcess

/-- No line that has been received waits for a handler. -/
def Quiet (s : SubProcess) : Prop := s.currentLines = [] ∧ s.lastLine.text = []

/-- The step writes the command from the queue, outside of `ReceivedNewLine`. -/
def Writes (s : SubProcess) (label : Label) (c : GDBCommand) : Prop :=
  (label = .processQueue ∨ label = .promptQueue) ∧ s.gdbReadyForInput = true ∧
    s.commands.head? = some c

/-- `ReceivedNewLine` returns with its lines, and `c` has been written meanwhile. -/
def LeavesLines (s : SubProcess) (c : GDBCommand) : Label → Prop
  | .answer .notHandled => (∃ b, s.frames = [.handling b] ∧ c ≠ b) ∨ s.frames = [.permanent 0]
  | .answer .requestLine => (∃ b, s.frames = [.handling b] ∧ c ≠ b) ∨
      (s.gdbReadyForInput = false ∧ ∃ left, s.frames = [.permanent left])
  | .raise => ∃ b, (s.frames = [.handling b] ∨ s.frames = [.completing b]) ∧ c ≠ b
  | _ => False

/-- A command with a response handler takes over only if no line waits. -/
def KeepsLines (s : SubProcess) (label : Label) : Prop :=
  ∀ c, c.responseHandler = true →
    (s.Writes label c ∨ s.currentCommand = some c ∧ s.LeavesLines c label) → s.Quiet

/-- The lines that wait have been received behind `c`, and before the next command. -/
structure Stamped (s : SubProcess) (c : GDBCommand) : Prop where
  lines : ∀ line ∈ s.currentLines, line.behind = some c
  last : s.lastLine.text ≠ [] → s.lastLine.behind = some c

end SubProcess

/-- Every line that a response handler has been given was received when its command was the
last one that had been written. -/
def Attributed (history : List Event) : Prop :=
  ∀ c lines, Event.called c lines ∈ history → ∀ line ∈ lines, line.behind = some c

/-- The current command is given its own lines, if its handler comes next. -/
def OwnLines (s : SubProcess) : Prop :=
  s.reader ≠ .ended → ∀ c, s.currentCommand = some c → c.responseHandler = true →
    (s.frames = [] ∨ s.frames = [.handling c] ∨ s.frames = [.completing c]) → s.Stamped c

structure LinesInv (s : SubProcess) : Prop where
  shape : Shape s
  attributed : Attributed s.history
  own : OwnLines s

theorem SubProcess.Quiet.stamped {s : SubProcess} (h : s.Quiet) (c : GDBCommand) : s.Stamped c := by
  refine ⟨?_, fun hne => absurd h.2 hne⟩
  intro line hline
  rw [h.1] at hline
  cases hline

theorem Attributed.append {history : List Event} (h : Attributed history) {e : Event}
    (he : ∀ c lines, e = .called c lines → ∀ line ∈ lines, line.behind = some c) :
    Attributed (history ++ [e]) := by
  intro c lines hmem
  rcases List.mem_append.mp hmem with hold | hnew
  · exact h c lines hold
  · exact he c lines (List.mem_singleton.mp hnew).symm

/-- No current command with a response handler. -/
theorem OwnLines.of_current {s : SubProcess}
    (h : ∀ c, s.currentCommand = some c → c.responseHandler = false) : OwnLines s := by
  intro _ c hc hhandler
  rw [h c hc] at hhandler
  cases hhandler

/-- The lines that wait are the same, and so are the frames and the current command. -/
theorem OwnLines.congr {s s' : SubProcess} (h : OwnLines s)
    (hreader : s'.reader ≠ .ended → s.reader ≠ .ended)
    (hcurrent : s'.currentCommand = s.currentCommand) (hframes : s'.frames = s.frames)
    (hlines : s'.currentLines = s.currentLines) (hlast : s'.lastLine = s.lastLine) :
    OwnLines s' := by
  intro halive c hc hhandler hcases
  rw [hcurrent] at hc
  rw [hframes] at hcases
  obtain ⟨hstamped, hlast'⟩ := h (hreader halive) c hc hhandler hcases
  refine ⟨?_, ?_⟩
  · rw [hlines]
    exact hstamped
  · rw [hlast]
    exact hlast'

theorem OwnLines.of_ended {s : SubProcess} (h : s.reader = .ended) : OwnLines s :=
  fun halive => absurd h halive

section

variable {s s' : SubProcess}

/-! ## `ReceivedNewLine` -/

/-- It returns, and the lines that wait are those of the current command. -/
theorem received_own
    (h : ∀ c, s.currentCommand = some c → c.responseHandler = true → s.Stamped c) :
    OwnLines s.received := by
  unfold SubProcess.received
  split
  · exact fun _ c hc hhandler _ => ⟨(h c hc hhandler).lines, (h c hc hhandler).last⟩
  · exact fun _ c hc hhandler _ => ⟨(h c hc hhandler).lines, (h c hc hhandler).last⟩

theorem caught_own
    (h : ∀ c, s.currentCommand = some c → c.responseHandler = true → s.Stamped c) :
    OwnLines s.caught := by
  unfold SubProcess.caught
  split
  · split
    · exact received_own h
    · exact OwnLines.of_ended rfl
  · exact OwnLines.of_ended rfl

/-- The handler of the current command is called with its own lines. -/
theorem receivedNewLine_lines (permanentHandlers : Nat) (hattributed : Attributed s.history)
    (h : ∀ c, s.currentCommand = some c → c.responseHandler = true → s.Stamped c) :
    Attributed (s.receivedNewLine permanentHandlers).history ∧
      OwnLines (s.receivedNewLine permanentHandlers) := by
  unfold SubProcess.receivedNewLine
  have hforget : s.forgetCurrent.history = s.history ∧
      (∀ c, s.forgetCurrent.currentCommand = some c → s.forgetCurrent.Stamped c) := by
    unfold SubProcess.forgetCurrent
    cases hcurrent : s.currentCommand with
    | none =>
        refine ⟨rfl, fun c hc => ?_⟩
        dsimp only at hc
        rw [hcurrent] at hc
        cases hc
    | some c =>
        dsimp only
        by_cases hhandler : c.responseHandler = true
        · rw [if_pos hhandler]
          refine ⟨rfl, fun d hd => ?_⟩
          rw [hcurrent] at hd
          cases hd
          exact h c hcurrent hhandler
        · rw [if_neg hhandler]
          refine ⟨rfl, fun d hd => ?_⟩
          cases hd
  generalize s.forgetCurrent = t at hforget
  obtain ⟨hhistory, hstamped⟩ := hforget
  dsimp only
  split
  · rename_i c hc
    refine ⟨?_, ?_⟩
    · rw [hhistory]
      apply hattributed.append
      intro d lines heq
      cases heq
      exact (hstamped c hc).lines
    · intro _ d hd _ _
      have hsame : d = c := Option.some.inj (hd.symm.trans hc)
      rw [hsame]
      exact ⟨(hstamped c hc).lines, (hstamped c hc).last⟩
  · rename_i hnone
    have hown : ∀ c, t.currentCommand = some c → c.responseHandler = true → t.Stamped c :=
      fun c hc _ => hstamped c hc
    split
    · refine ⟨?_, received_own hown⟩
      rw [(Keeps.received t).history, hhistory]
      exact hattributed
    · refine ⟨?_, ?_⟩
      · show Attributed t.history
        rw [hhistory]
        exact hattributed
      · intro _ c hc
        dsimp only at hc
        rw [hnone] at hc
        cases hc

/-! ## `ProcessQueue` -/

/-- `ProcessQueue`: the command that it writes has no lines yet, if no line waits or
`ReceivedNewLine` runs. -/
theorem processQueue_lines (hshape : Shape s) (hattributed : Attributed s.history)
    (hown : OwnLines s)
    (hquiet : ∀ c, s.commands.head? = some c → s.gdbReadyForInput = true →
      c.responseHandler = true → s.frames = [] → s.Quiet) :
    Attributed s.processQueue.history ∧ OwnLines s.processQueue := by
  unfold SubProcess.processQueue
  cases hcommands : s.commands with
  | nil => exact ⟨hattributed, hown⟩
  | cons c rest =>
      dsimp only
      by_cases hready : s.gdbReadyForInput = true
      · rw [if_pos hready]
        have hwritten : Attributed (s.history ++ [Event.written c]) :=
          hattributed.append fun _ _ heq => by cases heq
        by_cases hhandler : c.responseHandler = true
        · rw [if_pos hhandler]
          refine ⟨hwritten, ?_⟩
          intro _ d hd _ hframes
          cases hd
          have hnew := hshape.ordered.head_not_written hcommands
          rcases hframes with hempty | hhandling | hcompleting
          · have hhead : s.commands.head? = some c := by
              rw [hcommands]
              rfl
            have hstamped := (hquiet c hhead hready hhandler hempty).stamped c
            exact ⟨hstamped.lines, hstamped.last⟩
          · exact absurd (hshape.handling c (hhandling ▸ List.mem_singleton_self _)) hnew
          · exact absurd (hshape.completing c (hcompleting ▸ List.mem_singleton_self _)) hnew
        · rw [if_neg hhandler]
          refine ⟨hwritten.append (fun _ _ heq => by cases heq), OwnLines.of_current ?_⟩
          intro d hd
          cases hd
          exact Bool.not_eq_true _ ▸ hhandler
      · rw [if_neg hready]
        exact ⟨hattributed, hown⟩

theorem processQueue_lock (s : SubProcess) : s.processQueue.lock = s.lock := by
  unfold SubProcess.processQueue
  split
  · rfl
  · split
    · dsimp only
      split <;> rfl
    · rfl

theorem processQueue_reader (s : SubProcess) : s.processQueue.reader = s.reader := by
  unfold SubProcess.processQueue
  split
  · rfl
  · split
    · dsimp only
      split <;> rfl
    · rfl

/-- Behind `ProcessQueue` the reader goes on. -/
theorem leaveQueue_own (hown : OwnLines s)
    (hreader : s.lock = some .promptQueue → s.reader ≠ .ended) : OwnLines s.leaveQueue := by
  unfold SubProcess.leaveQueue
  split
  · rename_i hlock
    exact hown.congr (fun _ => hreader hlock) rfl rfl rfl rfl
  · exact hown.congr id rfl rfl rfl rfl
  · exact hown

/-! ## The reader -/

/-- A line whose line break is read belongs to the current command. -/
theorem readChar_own (hshape : Shape s) (hown : OwnLines s) (hreader : s.reader = .reading)
    (read : Char) : OwnLines (s.readChar read) := by
  have halive : s.reader ≠ .ended := by
    rw [hreader]
    exact Reader.noConfusion
  unfold SubProcess.readChar
  split
  · split
    · exact hown
    · intro _ c hc hhandler hframes
      refine ⟨(hown halive c hc hhandler hframes).lines, fun _ => ?_⟩
      exact hshape.current c hc
  · split
    · intro _ c hc hhandler hframes
      exact ⟨(hown halive c hc hhandler hframes).lines, fun hne => absurd rfl hne⟩
    · split
      · rename_i hlast
        intro _ c hc hhandler hframes
        have hstamped := hown halive c hc hhandler hframes
        refine ⟨?_, fun hne => absurd rfl hne⟩
        intro line hline
        rcases List.mem_append.mp hline with hold | hnew
        · exact hstamped.lines line hold
        · rw [List.mem_singleton.mp hnew]
          exact hstamped.last hlast.2
      · exact hown.congr (fun _ => halive) rfl rfl rfl rfl

theorem checkPrompt_lines (hshape : Shape s) (hlock : s.lock = none) (hreader : s.reader = .check)
    (hattributed : Attributed s.history) (hown : OwnLines s) (permanentHandlers : Nat) :
    Attributed (s.checkPrompt permanentHandlers).history ∧
      OwnLines (s.checkPrompt permanentHandlers) := by
  have halive : s.reader ≠ .ended := by
    rw [hreader]
    exact Reader.noConfusion
  have hstamped : ∀ c, s.currentCommand = some c → c.responseHandler = true → s.Stamped c :=
    fun c hc hhandler => hown halive c hc hhandler (Or.inl (hshape.unlocked hlock))
  unfold SubProcess.checkPrompt
  split
  · dsimp only
    by_cases hlast : s.lastLine.text = []
    · rw [if_neg (not_not_intro hlast)]
      refine receivedNewLine_lines permanentHandlers ?_ ?_
      · exact hattributed.append fun _ _ heq => by cases heq
      · exact fun c hc hhandler => ⟨(hstamped c hc hhandler).lines, (hstamped c hc hhandler).last⟩
    · rw [if_pos hlast]
      refine receivedNewLine_lines permanentHandlers ?_ ?_
      · exact hattributed.append fun _ _ heq => by cases heq
      · intro c hc hhandler
        refine ⟨?_, fun hne => absurd rfl hne⟩
        intro line hline
        rcases List.mem_append.mp hline with hold | hnew
        · exact (hstamped c hc hhandler).lines line hold
        · rw [List.mem_singleton.mp hnew]
          exact (hstamped c hc hhandler).last hlast
  · exact ⟨hattributed, hown.congr (fun _ => halive) rfl rfl rfl rfl⟩

/-! ## Handlers and callbacks -/

/-- A handler that has not returned `Handled` leaves its own lines, or none waits. -/
theorem handler_stamped (h : LinesInv s) {answer : HandleResponseEnum} {b : GDBCommand}
    (hframes : s.frames = [.handling b]) (halive : s.reader ≠ .ended)
    (hkeeps : s.KeepsLines (.answer answer)) (hanswer : answer ≠ .handled) :
    ∀ c, s.currentCommand = some c → c.responseHandler = true → s.Stamped c := by
  intro c hc hhandler
  -- a callback may have made another command the current one meanwhile
  by_cases hsame : c = b
  · exact h.own halive c hc hhandler (Or.inr (Or.inl (hsame ▸ hframes)))
  · refine (hkeeps c hhandler (Or.inr ⟨hc, ?_⟩)).stamped c
    cases answer with
    | notHandled => exact Or.inl ⟨b, hframes, hsame⟩
    | requestLine => exact Or.inl ⟨b, hframes, hsame⟩
    | handled => exact absurd rfl hanswer

/-- The handler of a command has returned. -/
theorem handler_lines (h : LinesInv s) {answer : HandleResponseEnum} {b : GDBCommand}
    (hframes : s.frames = [.handling b]) (hkeeps : s.KeepsLines (.answer answer))
    (hstep : s.returned answer = some s') : Attributed s'.history ∧ OwnLines s' := by
  have halive : s.reader ≠ .ended := by
    obtain ⟨owner, howner, htrue⟩ :=
      h.shape.inside _ (hframes ▸ List.mem_singleton_self _) rfl
    refine (h.shape.reader owner howner ?_).2
    rintro rfl
    cases htrue
  have hstamped := handler_stamped h hframes halive hkeeps
  unfold SubProcess.returned at hstep
  rw [hframes] at hstep
  cases answer with
  | notHandled =>
      cases hstep
      refine ⟨?_, received_own (hstamped HandleResponseEnum.noConfusion)⟩
      rw [(Keeps.received s).history]
      exact h.attributed
  | requestLine =>
      cases hstep
      split
      · refine ⟨?_, caught_own (hstamped HandleResponseEnum.noConfusion)⟩
        rw [(Keeps.caught s).history]
        exact h.attributed
      · refine ⟨?_, received_own (hstamped HandleResponseEnum.noConfusion)⟩
        rw [(Keeps.received s).history]
        exact h.attributed
  | handled =>
      have hhandled : Attributed (s.history ++ [Event.handled b]) :=
        h.attributed.append fun _ _ heq => by cases heq
      dsimp only at hstep
      split at hstep
      · rename_i d hd
        cases hstep
        refine ⟨hhandled.append (fun _ _ heq => by cases heq), ?_⟩
        intro _ c hc hhandler hcases
        rcases hcases with hempty | hhandling | hcompleting
        · cases hempty
        · cases hhandling
        · cases hcompleting
          have hown := h.own halive b hc hhandler (Or.inr (Or.inl hframes))
          exact ⟨hown.lines, hown.last⟩
      · rename_i hnone
        cases hstep
        refine ⟨?_, ?_⟩
        · rw [(Keeps.caught _).history]
          exact hhandled
        · apply OwnLines.of_current
          intro c hc
          rw [(Keeps.caught _).current] at hc
          dsimp only at hc
          rw [hnone] at hc
          cases hc

/-- A permanent handler has returned. -/
theorem permanent_lines (h : LinesInv s) {answer : HandleResponseEnum} {left : Nat}
    (hframes : s.frames = [.permanent left]) (hkeeps : s.KeepsLines (.answer answer))
    (hstep : s.returned answer = some s') : Attributed s'.history ∧ OwnLines s' := by
  have hlast := h.shape.receiving (h.shape.inside _ (hframes ▸ List.mem_singleton_self _) rfl)
  unfold SubProcess.returned at hstep
  rw [hframes] at hstep
  cases answer with
  | handled =>
      cases hstep
      refine ⟨?_, received_own ?_⟩
      · rw [(Keeps.received _).history]
        exact h.attributed
      · intro c _ _
        exact SubProcess.Quiet.stamped (s := { s with
          currentLines := []
          frames := [.permanent left] }) ⟨rfl, hlast⟩ c
  | requestLine =>
      cases hstep
      split
      · exact ⟨h.attributed, OwnLines.of_ended rfl⟩
      · rename_i hready
        refine ⟨?_, received_own ?_⟩
        · rw [(Keeps.received s).history]
          exact h.attributed
        · intro c hc hhandler
          refine (hkeeps c hhandler (Or.inr ⟨hc, Or.inr ⟨?_, left, hframes⟩⟩)).stamped c
          exact Bool.not_eq_true _ ▸ hready
  | notHandled =>
      cases left with
      | zero =>
          cases hstep
          refine ⟨?_, received_own ?_⟩
          · rw [(Keeps.received s).history]
            exact h.attributed
          · intro c hc hhandler
            exact (hkeeps c hhandler (Or.inr ⟨hc, Or.inr hframes⟩)).stamped c
      | succ left =>
          cases hstep
          refine ⟨h.attributed, ?_⟩
          intro _ c _ _ hcases
          rcases hcases with hempty | hhandling | hcompleting
          · cases hempty
          · cases hhandling
          · cases hcompleting

theorem returned_lines (h : LinesInv s) {answer : HandleResponseEnum}
    (hkeeps : s.KeepsLines (.answer answer)) (hstep : s.returned answer = some s') :
    Attributed s'.history ∧ OwnLines s' := by
  have hreturned := hstep
  unfold SubProcess.returned at hstep
  split at hstep
  · cases hstep
    refine ⟨?_, ?_⟩
    · rw [(Keeps.leaveQueue _).history]
      exact h.attributed
    · apply OwnLines.of_current
      intro c hc
      rw [(Keeps.leaveQueue _).current] at hc
      cases hc
  · rename_i b hframes
    exact handler_lines h hframes hkeeps hreturned
  · cases hstep
    refine ⟨?_, ?_⟩
    · rw [(Keeps.received _).history]
      exact h.attributed
    · apply OwnLines.of_current
      intro c hc
      rw [(Keeps.received _).current] at hc
      cases hc
  · rename_i left hframes
    exact permanent_lines h hframes hkeeps hreturned
  · cases hstep

theorem raised_lines (h : LinesInv s) (hkeeps : s.KeepsLines .raise)
    (hstep : s.raised = some s') : Attributed s'.history ∧ OwnLines s' := by
  -- a handler raises: the lines are those of its command, or none waits
  have hcaught : ∀ b, s.frames = [.handling b] ∨ s.frames = [.completing b] →
      Attributed s.caught.history ∧ OwnLines s.caught := by
    intro b hframes
    have halive : s.reader ≠ .ended := by
      obtain ⟨owner, howner, htrue⟩ : s.Receiving := by
        rcases hframes with hframes | hframes
        · exact h.shape.inside _ (hframes ▸ List.mem_singleton_self _) rfl
        · exact h.shape.inside _ (hframes ▸ List.mem_singleton_self _) rfl
      refine (h.shape.reader owner howner ?_).2
      rintro rfl
      cases htrue
    refine ⟨?_, caught_own ?_⟩
    · rw [(Keeps.caught s).history]
      exact h.attributed
    · intro c hc hhandler
      by_cases hsame : c = b
      · exact h.own halive c hc hhandler (Or.inr (hsame ▸ hframes))
      · exact (hkeeps c hhandler (Or.inr ⟨hc, b, hframes, hsame⟩)).stamped c
  -- `CommandFinished` raises in `ProcessQueue`: its command has no response handler
  have hfinishing : ∀ c rest, s.frames = .finishing c :: rest →
      ∀ d, s.currentCommand = some d → d.responseHandler = false :=
    fun c rest hframes => (h.shape.finishing c (hframes ▸ List.mem_cons_self)).2
  unfold SubProcess.raised at hstep
  split at hstep
  · rename_i c hframes
    split at hstep
    · cases hstep
      exact ⟨h.attributed, OwnLines.of_ended rfl⟩
    · cases hstep
      exact ⟨h.attributed, OwnLines.of_current (hfinishing c [] hframes)⟩
  · rename_i c rest _ hframes
    cases hstep
    exact ⟨h.attributed, OwnLines.of_current (hfinishing c rest hframes)⟩
  · rename_i b hframes
    cases hstep
    exact hcaught b (Or.inl hframes)
  · rename_i b hframes
    cases hstep
    exact hcaught b (Or.inr hframes)
  · cases hstep
    exact ⟨h.attributed, OwnLines.of_ended rfl⟩
  · cases hstep

/-- A step that meets the condition. -/
theorem LinesInv.step (h : LinesInv s) {permanentHandlers : Nat} {label : Label}
    (hkeeps : s.KeepsLines label) (hstep : s.step permanentHandlers label = some s') :
    LinesInv s' := by
  suffices hlines : Attributed s'.history ∧ OwnLines s' from
    ⟨h.shape.step hstep, hlines.1, hlines.2⟩
  cases label with
  | enqueue responseHandler =>
      obtain ⟨-, heq⟩ := Option.ite_none_right_eq_some.mp hstep
      cases heq
      exact ⟨h.attributed.append (fun _ _ heq => by cases heq), h.own.congr id rfl rfl rfl rfl⟩
  | processQueue =>
      obtain ⟨⟨hlock, -⟩, heq⟩ := Option.ite_none_right_eq_some.mp hstep
      cases heq
      have hlocked := h.shape.lockOther hlock
      have hown : OwnLines { s with queueing := s.queueing - 1, lock := some .other } :=
        h.own.congr id rfl rfl rfl rfl
      have hwritten := processQueue_lines hlocked h.attributed hown
        fun c hhead hready hhandler _ => hkeeps c hhandler (Or.inl ⟨Or.inl rfl, hready, hhead⟩)
      refine ⟨?_, leaveQueue_own hwritten.2 ?_⟩
      · rw [(Keeps.leaveQueue _).history]
        exact hwritten.1
      · intro hprompt
        rw [processQueue_lock] at hprompt
        cases hprompt
  | read c =>
      obtain ⟨hreader, heq⟩ := Option.ite_none_right_eq_some.mp hstep
      cases heq
      refine ⟨?_, readChar_own h.shape h.own hreader c⟩
      rw [(Keeps.readChar c s).history]
      exact h.attributed
  | enter =>
      obtain ⟨hlock, ⟨read, hnew, rfl⟩ | ⟨hcheck, rfl⟩⟩ := SubProcess.enter_cases hstep
      · refine receivedNewLine_lines permanentHandlers h.attributed ?_
        intro c hc hhandler
        have hown := h.own (by rw [hnew]; exact Reader.noConfusion) c hc hhandler
          (Or.inl (h.shape.unlocked hlock))
        exact ⟨hown.lines, hown.last⟩
      · exact checkPrompt_lines h.shape hlock hcheck h.attributed h.own permanentHandlers
  | promptQueue =>
      obtain ⟨⟨hlock, -⟩, heq⟩ := Option.ite_none_right_eq_some.mp hstep
      cases heq
      have hwritten := processQueue_lines h.shape h.attributed h.own
        fun c hhead hready hhandler _ => hkeeps c hhandler (Or.inl ⟨Or.inr rfl, hready, hhead⟩)
      refine ⟨?_, leaveQueue_own hwritten.2 ?_⟩
      · rw [(Keeps.leaveQueue _).history]
        exact hwritten.1
      · intro _
        rw [processQueue_reader]
        exact (h.shape.reader _ hlock Owner.noConfusion).2
  | stop =>
      obtain ⟨-, heq⟩ := Option.ite_none_right_eq_some.mp hstep
      cases heq
      exact ⟨h.attributed, OwnLines.of_ended rfl⟩
  | callback responseHandler =>
      obtain ⟨hframes, heq⟩ := Option.ite_none_left_eq_some.mp hstep
      cases heq
      refine processQueue_lines (h.shape.enqueue responseHandler) ?_ ?_ ?_
      · exact h.attributed.append fun _ _ heq => by cases heq
      · exact h.own.congr id rfl rfl rfl rfl
      · exact fun _ _ _ _ hempty => absurd hempty hframes
  | answer a => exact returned_lines h hkeeps hstep
  | raise => exact raised_lines h hkeeps hstep

end

theorem lines_inductive (permanentHandlers : Nat) :
    (subProcess permanentHandlers).Inductive SubProcess.KeepsLines LinesInv where
  init s hinit := by
    cases hinit
    refine ⟨shape_initial, ?_, ?_⟩
    · intro c lines hmem
      cases hmem
    · apply OwnLines.of_current
      intro c hc
      cases hc
  step _ _ _ h hkeeps hstep := h.step hkeeps hstep

/-- In every run in which a command with a response handler takes over only if no line waits. -/
theorem lines_attributed {permanentHandlers : Nat} {s : SubProcess}
    (hs : (subProcess permanentHandlers).ReachableBy SubProcess.KeepsLines s) :
    Attributed s.history :=
  ((lines_inductive permanentHandlers).invariant s hs).attributed

/-- Where no line waits, or nothing is written and nothing is left. -/
def SubProcess.keepsLines (s : SubProcess) : Label → Bool
  | .enqueue _ | .read _ | .enter | .stop | .callback _ | .answer .handled => true
  | _ => s.currentLines.isEmpty && s.lastLine.text.isEmpty

theorem keepsLines_of_check {s : SubProcess} {label : Label} (h : s.keepsLines label = true) :
    s.KeepsLines label := by
  have hquiet : (s.currentLines.isEmpty && s.lastLine.text.isEmpty) = true → s.Quiet := by
    rw [Bool.and_eq_true, List.isEmpty_iff, List.isEmpty_iff]
    exact id
  have hnothing : (∀ c, ¬s.Writes label c) → (∀ c, ¬s.LeavesLines c label) → s.KeepsLines label := by
    rintro hwrites hleaves c - (hline | ⟨-, hline⟩)
    · exact absurd hline (hwrites c)
    · exact absurd hline (hleaves c)
  cases label with
  | processQueue => exact fun _ _ _ => hquiet h
  | promptQueue => exact fun _ _ _ => hquiet h
  | raise => exact fun _ _ _ => hquiet h
  | answer a =>
      cases a with
      | handled => exact hnothing (by simp [SubProcess.Writes]) (fun _ => id)
      | _ => exact fun _ _ _ => hquiet h
  | _ => exact hnothing (by simp [SubProcess.Writes]) (fun _ => id)

theorem lines_attributed_two :
    ∃ s, (subProcess 0).execWhere SubProcess.keepsLines SubProcess.initial twoAnswered = some s ∧
      Event.called ⟨0, true⟩ [⟨['a'], some ⟨0, true⟩⟩] ∈ s.history ∧
      Event.called ⟨1, true⟩ [⟨['b'], some ⟨1, true⟩⟩] ∈ s.history ∧ Attributed s.history := by
  obtain ⟨s, hexec, hfirst, hsecond⟩ : ∃ s,
      (subProcess 0).execWhere SubProcess.keepsLines SubProcess.initial twoAnswered = some s ∧
      Event.called ⟨0, true⟩ [⟨['a'], some ⟨0, true⟩⟩] ∈ s.history ∧
      Event.called ⟨1, true⟩ [⟨['b'], some ⟨1, true⟩⟩] ∈ s.history :=
    ⟨_, rfl, by decide, by decide⟩
  have hreach : (subProcess 0).ReachableBy SubProcess.KeepsLines s :=
    TSys.ReachableBy.execWhere (fun _ _ => keepsLines_of_check) (.init rfl) hexec
  exact ⟨s, hexec, hfirst, hsecond, lines_attributed hreach⟩

/-- The handler of the first command does not handle its line, and so the second one is given
it. -/
def leftOver : List Label :=
  [.enqueue true, .enqueue true] ++ readsText "(gdb)" ++ [.answer .handled, .promptQueue] ++
    readsText "a\n(" ++ [.answer .requestLine, .enter] ++ readsText "gdb)" ++
    [.answer .notHandled, .promptQueue] ++ readsText "(gdb)"

theorem left_over_line_given_to_next :
    ∃ s, (subProcess 1).exec SubProcess.initial leftOver = some s ∧
      Event.called ⟨1, true⟩ [⟨['a'], some ⟨0, true⟩⟩] ∈ s.history ∧ ¬Attributed s.history := by
  obtain ⟨s, hexec, hcalled⟩ : ∃ s, (subProcess 1).exec SubProcess.initial leftOver = some s ∧
      Event.called ⟨1, true⟩ [⟨['a'], some ⟨0, true⟩⟩] ∈ s.history := ⟨_, rfl, by decide⟩
  refine ⟨s, hexec, hcalled, ?_⟩
  intro hattributed
  have hbehind := hattributed _ _ hcalled _ (List.mem_singleton_self _)
  cases hbehind

end InMemoryFuzzing.Gdb

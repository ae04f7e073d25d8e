import InMemoryFuzzing.Gdb.CommandLogic

/-!
# What runs under the lock

An invariant of all steps: which frames there can be with which state of the queue and of the
reader. While `CommandFinished` runs in `ProcessQueue` gdb is not ready, so no command is
written; while `ReceivedNewLine` runs the reader has no unfinished business of its own.
-/

namespace InMemoryFuzzing.Gdb

open Base Platform DotNet

/-- The reader is in `ReceivedNewLine`. -/
def Owner.receiving : Owner → Bool
  | .newLine _ => true
  | .prompt => true
  | _ => false

/-- The reader has the lock for `ReceivedNewLine`. -/
def SubProcess.Receiving (s : SubProcess) : Prop :=
  ∃ owner, s.lock = some owner ∧ owner.receiving = true

/-- `CommandFinished` in `ProcessQueue`. -/
def Frame.isFinishing : Frame → Bool
  | .finishing _ => true
  | _ => false

structure Shape (s : SubProcess) : Prop where
  ordered : Ordered s
  unlocked : s.lock = none → s.frames = []
  /-- The other frames are of `ReceivedNewLine`. -/
  inside : ∀ f ∈ s.frames, f.isFinishing = false → s.Receiving
  /-- A handler that has been called is that of a command that has been written. -/
  handling : ∀ c, Frame.handling c ∈ s.frames → c ∈ writtenOf s.history
  completing : ∀ c, Frame.completing c ∈ s.frames → c ∈ writtenOf s.history
  /-- `CommandFinished` in `ProcessQueue` is that of a command without response handler. -/
  finishing : ∀ c, Frame.finishing c ∈ s.frames → s.gdbReadyForInput = false ∧
    ∀ d, s.currentCommand = some d → d.responseHandler = false
  /-- The reader does not read while it has the lock. -/
  reader : ∀ owner, s.lock = some owner → owner ≠ .other →
    s.reader ≠ .reading ∧ s.reader ≠ .ended
  receiving : s.Receiving → s.lastLine.text = []
  newLine : ∀ read, s.reader = .newLine read → s.lastLine.text = []
  current : ∀ c, s.currentCommand = some c → lastWritten s.history = some c

theorem lastWritten_other {e : Event} (he : e.written? = none) (h : List Event) :
    lastWritten (h ++ [e]) = lastWritten h := by
  rw [lastWritten, writtenOf_other he, lastWritten]

theorem lastWritten_written (h : List Event) (c : GDBCommand) :
    lastWritten (h ++ [Event.written c]) = some c := by
  rw [lastWritten, writtenOf_append]
  exact List.getLast?_concat

theorem mem_of_lastWritten {h : List Event} {c : GDBCommand} (hc : lastWritten h = some c) :
    c ∈ writtenOf h :=
  List.mem_of_getLast? hc

namespace Shape

variable {s s' : SubProcess}

/-- Another event that writes nothing, with the same frames. -/
theorem event (h : Shape s) {e : Event} (he : e.enqueued? = none) (hw : e.written? = none) :
    Shape { s with history := s.history ++ [e] } where
  ordered := h.ordered.event he hw rfl rfl rfl
  unlocked := h.unlocked
  inside := h.inside
  handling c hc := by
    rw [writtenOf_other hw]
    exact h.handling c hc
  completing c hc := by
    rw [writtenOf_other hw]
    exact h.completing c hc
  finishing := h.finishing
  reader := h.reader
  receiving := h.receiving
  newLine := h.newLine
  current c hc := by
    rw [lastWritten_other hw]
    exact h.current c hc

theorem enqueue (h : Shape s) (responseHandler : Bool) : Shape (s.enqueue responseHandler) where
  ordered := h.ordered.enqueue responseHandler
  unlocked := h.unlocked
  inside := h.inside
  handling c hc := by
    rw [SubProcess.enqueue, writtenOf_other rfl]
    exact h.handling c hc
  completing c hc := by
    rw [SubProcess.enqueue, writtenOf_other rfl]
    exact h.completing c hc
  finishing := h.finishing
  reader := h.reader
  receiving := h.receiving
  newLine := h.newLine
  current c hc := by
    rw [SubProcess.enqueue, lastWritten_other rfl]
    exact h.current c hc

/-- A command is written while no `CommandFinished` of `ProcessQueue` runs. -/
theorem write (h : Shape s) {c : GDBCommand} {rest : List GDBCommand}
    (hcommands : s.commands = c :: rest) (hready : s.gdbReadyForInput = true) :
    Shape { s with
      gdbReadyForInput := false
      commands := rest
      currentCommand := some c
      history := s.history ++ [Event.written c] } where
  ordered := h.ordered.write hcommands hready
  unlocked := h.unlocked
  inside := h.inside
  handling b hb := by
    rw [writtenOf_append]
    exact List.mem_append_left _ (h.handling b hb)
  completing b hb := by
    rw [writtenOf_append]
    exact List.mem_append_left _ (h.completing b hb)
  finishing b hb := by
    have hfalse := (h.finishing b hb).1
    rw [hready] at hfalse
    cases hfalse
  reader := h.reader
  receiving := h.receiving
  newLine := h.newLine
  current b hb := by
    cases hb
    exact lastWritten_written s.history c

/-- `ProcessQueue` writes the first command if it can. -/
theorem processQueue (h : Shape s) (hlock : s.lock ≠ none) : Shape s.processQueue := by
  unfold SubProcess.processQueue
  cases hcommands : s.commands with
  | nil => exact h
  | cons c rest =>
      dsimp only
      by_cases hready : s.gdbReadyForInput = true
      · rw [if_pos hready]
        have hwritten := h.write hcommands hready
        by_cases hhandler : c.responseHandler = true
        · rw [if_pos hhandler]
          exact hwritten
        · rw [if_neg hhandler]
          have hevent := hwritten.event (e := Event.finished c) rfl rfl
          rw [Bool.not_eq_true] at hhandler
          refine ⟨hevent.ordered.congr rfl rfl rfl, fun hnone => absurd hnone hlock, ?_, ?_, ?_, ?_,
            hevent.reader, hevent.receiving, hevent.newLine, hevent.current⟩
          · intro f hf hother
            rcases List.mem_cons.mp hf with rfl | hold
            · cases hother
            · exact hevent.inside f hold hother
          · intro b hb
            exact hevent.handling b (List.mem_of_ne_of_mem (by simp) hb)
          · intro b hb
            exact hevent.completing b (List.mem_of_ne_of_mem (by simp) hb)
          · intro b _
            refine ⟨rfl, fun d hd => ?_⟩
            cases hd
            exact hhandler
      · rw [if_neg hready]
        exact h

theorem leaveQueue (h : Shape s) : Shape s.leaveQueue := by
  unfold SubProcess.leaveQueue
  split
  · rename_i hframes _
    refine ⟨h.ordered.congr rfl rfl rfl, fun _ => hframes, ?_, h.handling, h.completing,
      h.finishing, ?_, ?_, ?_, h.current⟩
    · intro f hf
      rw [hframes] at hf
      cases hf
    · intro owner howner
      cases howner
    · rintro ⟨owner, howner, -⟩
      cases howner
    · intro read hread
      cases hread
  · rename_i hframes _
    refine ⟨h.ordered.congr rfl rfl rfl, fun _ => hframes, ?_, h.handling, h.completing,
      h.finishing, ?_, ?_, h.newLine, h.current⟩
    · intro f hf
      rw [hframes] at hf
      cases hf
    · intro owner howner
      cases howner
    · rintro ⟨owner, howner, -⟩
      cases howner
  · exact h

/-- The frames are gone, and the reader is not in `ReceivedNewLine`. -/
theorem cleared (h : Shape s) {reader : Reader} {lock : Option Owner} {currentLine : List Char}
    {lines : List Line}
    (hlock : ∀ owner, lock = some owner → owner.receiving = false ∧
      (owner ≠ .other → reader ≠ .reading ∧ reader ≠ .ended))
    (hreader : ∀ read, reader = .newLine read → s.lastLine.text = []) :
    Shape { s with
      frames := []
      lock := lock
      reader := reader
      currentLine := currentLine
      currentLines := lines } := by
  refine ⟨h.ordered.congr rfl rfl rfl, fun _ => rfl, ?_, ?_, ?_, ?_, fun owner howner =>
    (hlock owner howner).2, ?_, hreader, h.current⟩
  · intro f hf
    cases hf
  · intro c hc
    cases hc
  · intro c hc
    cases hc
  · intro c hc
    cases hc
  · rintro ⟨owner, howner, hreceiving⟩
    rw [(hlock owner howner).1] at hreceiving
    cases hreceiving

theorem die (h : Shape s) : Shape s.die := by
  refine h.cleared ?_ ?_
  · intro owner howner
    cases howner
  · intro read hread
    cases hread

theorem received (h : Shape s) (hreceiving : s.Receiving) : Shape s.received := by
  unfold SubProcess.received
  split
  · refine h.cleared ?_ ?_
    · intro owner howner
      cases howner
    · intro read hread
      cases hread
  · refine h.cleared ?_ h.newLine
    intro owner howner
    cases howner
    refine ⟨rfl, fun _ => ?_⟩
    obtain ⟨owner, howner, htrue⟩ := hreceiving
    refine h.reader owner howner ?_
    rintro rfl
    cases htrue

theorem caught (h : Shape s) (hreceiving : s.Receiving) : Shape s.caught := by
  unfold SubProcess.caught
  split
  · split
    · exact h.received hreceiving
    · exact h.die
  · exact h.die

/-- The current command is forgotten. -/
theorem forget (h : Shape s) : Shape { s with currentCommand := none } := by
  refine ⟨h.ordered.congr rfl rfl rfl, h.unlocked, h.inside, h.handling, h.completing, ?_,
    h.reader, h.receiving, h.newLine, ?_⟩
  · intro c hc
    refine ⟨(h.finishing c hc).1, fun d hd => ?_⟩
    cases hd
  · intro c hc
    cases hc

theorem forgetCurrent (h : Shape s) : Shape s.forgetCurrent := by
  unfold SubProcess.forgetCurrent
  split
  · split
    · exact h
    · exact h.forget
  · exact h

theorem receivedNewLine (h : Shape s) (hreceiving : s.Receiving) (permanentHandlers : Nat) :
    Shape (s.receivedNewLine permanentHandlers) := by
  have hforget := h.forgetCurrent
  have hsame : s.forgetCurrent.lock = s.lock := by
    unfold SubProcess.forgetCurrent
    split
    · split <;> rfl
    · rfl
  unfold SubProcess.receivedNewLine
  dsimp only
  generalize s.forgetCurrent = t at hforget hsame
  have hinside : t.Receiving := by
    unfold SubProcess.Receiving
    rw [hsame]
    exact hreceiving
  have hlock : t.lock ≠ none := by
    obtain ⟨owner, howner, -⟩ := hinside
    rw [howner]
    exact Option.some_ne_none owner
  split
  · rename_i c hc
    have hcalled := hforget.event (e := Event.called c t.currentLines) rfl rfl
    refine ⟨hcalled.ordered.congr rfl rfl rfl, fun hnone => absurd hnone hlock,
      fun _ _ _ => hinside, ?_, ?_, ?_, hcalled.reader, hcalled.receiving, hcalled.newLine,
      hcalled.current⟩
    · intro b hb
      rw [List.mem_singleton, Frame.handling.injEq] at hb
      rw [hb]
      exact mem_of_lastWritten (hcalled.current c hc)
    · intro b hb
      cases List.mem_singleton.mp hb
    · intro b hb
      cases List.mem_singleton.mp hb
  · split
    · exact hforget.received hinside
    · refine ⟨hforget.ordered.congr rfl rfl rfl, fun hnone => absurd hnone hlock,
        fun _ _ _ => hinside, ?_, ?_, ?_, hforget.reader, hforget.receiving, hforget.newLine,
        hforget.current⟩
      · intro b hb
        cases List.mem_singleton.mp hb
      · intro b hb
        cases List.mem_singleton.mp hb
      · intro b hb
        cases List.mem_singleton.mp hb

/-- The reader has finished a line, or goes on with one. -/
theorem lines (h : Shape s) (hreader : s.reader = .reading) {reader : Reader}
    {currentLine : List Char} {lastLine : Line} {lines : List Line}
    (hnew : ∀ read, reader = .newLine read → lastLine.text = []) :
    Shape { s with
      reader := reader
      currentLine := currentLine
      lastLine := lastLine
      currentLines := lines } := by
  refine ⟨h.ordered.congr rfl rfl rfl, h.unlocked, h.inside, h.handling, h.completing, h.finishing,
    ?_, ?_, hnew, h.current⟩
  · intro owner howner hne
    exact absurd hreader (h.reader owner howner hne).1
  · rintro ⟨owner, howner, hreceiving⟩
    have hne : owner ≠ .other := by
      rintro rfl
      cases hreceiving
    exact absurd hreader (h.reader owner howner hne).1

theorem readChar (h : Shape s) (hreader : s.reader = .reading) (read : Char) :
    Shape (s.readChar read) := by
  have hcheck : ∀ read, Reader.check = .newLine read → ∀ lastLine : Line, lastLine.text = [] := by
    intro read hread
    cases hread
  unfold SubProcess.readChar
  split
  · split
    · exact h
    · exact h.lines hreader fun read hread => hcheck read hread _
  · split
    · exact h.lines hreader fun _ _ => rfl
    · split
      · exact h.lines hreader fun _ _ => rfl
      · exact h.lines hreader fun read hread => hcheck read hread _

theorem checkPrompt (h : Shape s) (hlock : s.lock = none) (hreader : s.reader = .check)
    (permanentHandlers : Nat) : Shape (s.checkPrompt permanentHandlers) := by
  have hframes := h.unlocked hlock
  unfold SubProcess.checkPrompt
  split
  · have hprompt : ∀ lastLine lines, lastLine.text = [] → Shape { s with
        currentLine := []
        gdbReadyForInput := true
        lock := some .prompt
        history := s.history ++ [Event.prompt]
        lastLine := lastLine
        currentLines := lines } := by
      intro lastLine lines hempty
      have hevent := h.event (e := Event.prompt) rfl rfl
      refine ⟨h.ordered.prompt.congr rfl rfl rfl, ?_, ?_, hevent.handling, hevent.completing, ?_, ?_,
        fun _ => hempty, fun _ _ => hempty, hevent.current⟩
      · intro hnone
        cases hnone
      · intro f hf
        rw [hframes] at hf
        cases hf
      · intro c hc
        rw [hframes] at hc
        cases hc
      · intro _ _ _
        show s.reader ≠ .reading ∧ s.reader ≠ .ended
        rw [hreader]
        exact ⟨Reader.noConfusion, Reader.noConfusion⟩
    dsimp only
    by_cases hlast : s.lastLine.text = []
    · rw [if_neg (not_not_intro hlast)]
      exact (hprompt s.lastLine s.currentLines hlast).receivedNewLine ⟨_, rfl, rfl⟩ _
    · rw [if_pos hlast]
      exact (hprompt ⟨[], none⟩ (s.currentLines ++ [s.lastLine]) rfl).receivedNewLine
        ⟨_, rfl, rfl⟩ _
  · refine ⟨h.ordered.congr rfl rfl rfl, h.unlocked, h.inside, h.handling, h.completing,
      h.finishing, ?_, h.receiving, ?_, h.current⟩
    · intro owner howner
      rw [hlock] at howner
      cases howner
    · intro read hread
      cases hread

/-- A frame that is not one of `ProcessQueue` is replaced. -/
theorem replace (h : Shape s) {f : Frame} (hreceiving : s.Receiving)
    (hhandling : ∀ c, f ≠ .handling c) (hfinishing : ∀ c, f ≠ .finishing c)
    (hcompleting : ∀ c, f = .completing c → c ∈ writtenOf s.history) :
    Shape { s with frames := [f] } := by
  refine ⟨h.ordered.congr rfl rfl rfl, ?_, fun _ _ _ => hreceiving, ?_, ?_, ?_, h.reader,
    h.receiving, h.newLine, h.current⟩
  · intro hnone
    obtain ⟨owner, howner, -⟩ := hreceiving
    rw [howner] at hnone
    cases hnone
  · intro c hc
    exact absurd (List.mem_singleton.mp hc).symm (hhandling c)
  · intro c hc
    exact hcompleting c (List.mem_singleton.mp hc).symm
  · intro c hc
    exact absurd (List.mem_singleton.mp hc).symm (hfinishing c)

/-- The innermost frame is gone. -/
theorem pop (h : Shape s) {f : Frame} {rest : List Frame} (hframes : s.frames = f :: rest) :
    Shape { s with frames := rest } := by
  refine ⟨h.ordered.congr rfl rfl rfl, ?_, ?_, ?_, ?_, ?_, h.reader, h.receiving, h.newLine,
    h.current⟩
  · intro hnone
    rw [h.unlocked hnone] at hframes
    cases hframes
  · intro g hg
    exact h.inside g (hframes ▸ List.mem_cons_of_mem f hg)
  · intro c hc
    exact h.handling c (hframes ▸ List.mem_cons_of_mem f hc)
  · intro c hc
    exact h.completing c (hframes ▸ List.mem_cons_of_mem f hc)
  · intro c hc
    exact h.finishing c (hframes ▸ List.mem_cons_of_mem f hc)

/-- Another thread takes the lock. -/
theorem lockOther (h : Shape s) (hlock : s.lock = none) :
    Shape { s with queueing := s.queueing - 1, lock := some .other } := by
  refine ⟨h.ordered.congr rfl rfl rfl, ?_, ?_, h.handling, h.completing, h.finishing, ?_, ?_,
    h.newLine, h.current⟩
  · intro hnone
    cases hnone
  · intro f hf
    rw [h.unlocked hlock] at hf
    cases hf
  · intro owner howner hne
    cases howner
    exact absurd rfl hne
  · rintro ⟨owner, howner, hreceiving⟩
    cases howner
    cases hreceiving

theorem locked (h : Shape s) (hframes : s.frames ≠ []) : s.lock ≠ none :=
  fun hnone => hframes (h.unlocked hnone)

theorem returned (h : Shape s) {answer : HandleResponseEnum}
    (hstep : s.returned answer = some s') : Shape s' := by
  unfold SubProcess.returned at hstep
  split at hstep
  · rename_i rest hframes
    cases hstep
    exact (h.pop hframes).forget.leaveQueue
  · rename_i c hframes
    have hreceiving : s.Receiving := h.inside _ (hframes ▸ List.mem_singleton_self _) rfl
    have hc : c ∈ writtenOf s.history :=
      h.handling c (hframes ▸ List.mem_singleton_self _)
    cases answer with
    | notHandled =>
        cases hstep
        exact h.received hreceiving
    | requestLine =>
        cases hstep
        split
        · exact h.caught hreceiving
        · exact h.received hreceiving
    | handled =>
        have hhandled := h.event (e := Event.handled c) rfl rfl
        dsimp only at hstep
        split at hstep
        · rename_i d _
          cases hstep
          have hfinished := hhandled.event (e := Event.finished d) rfl rfl
          refine hfinished.replace hreceiving (fun _ => Frame.noConfusion) (fun _ => Frame.noConfusion) ?_
          intro b hb
          cases hb
          show c ∈ writtenOf (s.history ++ [Event.handled c] ++ [Event.finished d])
          rw [writtenOf_other rfl, writtenOf_other rfl]
          exact hc
        · cases hstep
          exact hhandled.caught hreceiving
  · rename_i hframes
    have hreceiving : s.Receiving := h.inside _ (hframes ▸ List.mem_singleton_self _) rfl
    cases hstep
    refine received ?_ hreceiving
    have hforget := h.forget
    exact ⟨hforget.ordered.congr rfl rfl rfl, hforget.unlocked, hforget.inside, hforget.handling,
      hforget.completing, hforget.finishing, hforget.reader, hforget.receiving, hforget.newLine,
      hforget.current⟩
  · rename_i left hframes
    have hreceiving : s.Receiving := h.inside _ (hframes ▸ List.mem_singleton_self _) rfl
    cases answer with
    | handled =>
        cases hstep
        refine received ?_ hreceiving
        exact ⟨h.ordered.congr rfl rfl rfl, h.unlocked, h.inside, h.handling, h.completing,
          h.finishing, h.reader, h.receiving, h.newLine, h.current⟩
    | requestLine =>
        cases hstep
        split
        · exact h.die
        · exact h.received hreceiving
    | notHandled =>
        dsimp only at hstep
        split at hstep
        · cases hstep
          exact h.received hreceiving
        · cases hstep
          exact h.replace hreceiving (fun _ => Frame.noConfusion) (fun _ => Frame.noConfusion)
            fun _ => Frame.noConfusion
  · cases hstep

theorem raised (h : Shape s) (hstep : s.raised = some s') : Shape s' := by
  unfold SubProcess.raised at hstep
  split at hstep
  · split at hstep
    · cases hstep
      exact h.die
    · cases hstep
      refine h.cleared ?_ h.newLine
      intro owner howner
      cases howner
  · rename_i rest _ hframes
    cases hstep
    exact h.pop hframes
  · rename_i hframes
    cases hstep
    exact h.caught (h.inside _ (hframes ▸ List.mem_singleton_self _) rfl)
  · rename_i hframes
    cases hstep
    exact h.caught (h.inside _ (hframes ▸ List.mem_singleton_self _) rfl)
  · cases hstep
    exact h.die
  · cases hstep

/-- A step. -/
theorem step (h : Shape s) {permanentHandlers : Nat} {label : Label}
    (hstep : s.step permanentHandlers label = some s') : Shape s' := by
  cases label with
  | enqueue responseHandler =>
      obtain ⟨-, heq⟩ := Option.ite_none_right_eq_some.mp hstep
      cases heq
      have henqueued := h.enqueue responseHandler
      exact ⟨henqueued.ordered.congr rfl rfl rfl, henqueued.unlocked, henqueued.inside,
        henqueued.handling, henqueued.completing, henqueued.finishing, henqueued.reader,
        henqueued.receiving, henqueued.newLine, henqueued.current⟩
  | processQueue =>
      obtain ⟨⟨hlock, -⟩, heq⟩ := Option.ite_none_right_eq_some.mp hstep
      cases heq
      have hlocked := h.lockOther hlock
      exact (hlocked.processQueue (Option.some_ne_none _)).leaveQueue
  | read c =>
      obtain ⟨hreader, heq⟩ := Option.ite_none_right_eq_some.mp hstep
      cases heq
      exact h.readChar hreader c
  | enter =>
      obtain ⟨hlock, ⟨read, hnew, rfl⟩ | ⟨hcheck, rfl⟩⟩ := SubProcess.enter_cases hstep
      · have hlocked : Shape { s with lock := some (.newLine read) } := by
          refine ⟨h.ordered.congr rfl rfl rfl, ?_, fun _ _ _ => ⟨_, rfl, rfl⟩, h.handling,
            h.completing, h.finishing, ?_, fun _ => h.newLine read hnew, h.newLine, h.current⟩
          · intro hnone
            cases hnone
          · intro _ _ _
            show s.reader ≠ .reading ∧ s.reader ≠ .ended
            rw [hnew]
            exact ⟨Reader.noConfusion, Reader.noConfusion⟩
        exact hlocked.receivedNewLine ⟨_, rfl, rfl⟩ permanentHandlers
      · exact h.checkPrompt hlock hcheck permanentHandlers
  | promptQueue =>
      obtain ⟨⟨hlock, -⟩, heq⟩ := Option.ite_none_right_eq_some.mp hstep
      cases heq
      exact (h.processQueue (by rw [hlock]; exact Option.some_ne_none _)).leaveQueue
  | stop =>
      obtain ⟨hreader, heq⟩ := Option.ite_none_right_eq_some.mp hstep
      cases heq
      exact h.lines hreader fun read hread => by cases hread
  | callback responseHandler =>
      obtain ⟨hframes, heq⟩ := Option.ite_none_left_eq_some.mp hstep
      cases heq
      exact (h.enqueue responseHandler).processQueue (h.locked hframes)
  | answer a => exact h.returned hstep
  | raise => exact h.raised hstep

end Shape

theorem shape_initial : Shape SubProcess.initial := by
  refine ⟨(ordered_inductive 0).init _ rfl, fun _ => rfl, ?_, ?_, ?_, ?_, ?_, fun _ => rfl, ?_, ?_⟩ <;>
    intro _ h <;> cases h

end InMemoryFuzzing.Gdb

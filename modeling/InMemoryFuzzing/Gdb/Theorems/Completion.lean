import InMemoryFuzzing.Gdb.FrameLogic
import InMemoryFuzzing.Gdb.Theorems.Commands

/-!
# Which command is finished

When a response handler returns `Handled`, `CommandFinished` is raised on the command that is
the current one by then, and behind it there is no current command. If the handler or
`CommandFinished` has queued a command and gdb is at the prompt, that is another one than the
handler belongs to. Apart from these two steps each command is finished once, and not before
its time (`commands_completed`).
-/

namespace InMemoryFuzzing.Gdb

open Base Platform DotNet

/-- What `CommandFinished` promises, for a history and the current command. -/
structure Completed (history : List Event) (current : Option GDBCommand) : Prop where
  /-- It is raised at most once for each command. -/
  once : ∀ c, history.count (Event.finished c) ≤ 1
  /-- The command has been written and has no response handler, or its handler has just
  returned `Handled`. -/
  justified : ∀ a c b, history = a ++ Event.finished c :: b →
    (c.responseHandler = false ∧ Event.written c ∈ a) ∨ ∃ a', a = a' ++ [Event.handled c]
  /-- The last command that has been written is the current one, until it is finished or its
  handler returns `Handled`. -/
  remains : ∀ c, lastWritten history = some c → Event.finished c ∉ history →
    Event.handled c ∉ history → current = some c

/-- The part of it that is about the history only; a command that is finished or handled has
been written. -/
structure FinishLog (history : List Event) : Prop where
  once : ∀ c, history.count (Event.finished c) ≤ 1
  justified : ∀ a c b, history = a ++ Event.finished c :: b →
    (c.responseHandler = false ∧ Event.written c ∈ a) ∨ ∃ a', a = a' ++ [Event.handled c]
  finished : ∀ c, Event.finished c ∈ history → c ∈ writtenOf history
  handled : ∀ c, Event.handled c ∈ history → c ∈ writtenOf history

structure CompletedInv (history : List Event) (current : Option GDBCommand) : Prop where
  log : FinishLog history
  remains : ∀ c, lastWritten history = some c → Event.finished c ∉ history →
    Event.handled c ∉ history → current = some c
  /-- A current command without response handler is finished. -/
  plain : ∀ c, current = some c → c.responseHandler = false → Event.finished c ∈ history
  /-- So is one whose handler has returned `Handled`. -/
  done : ∀ c, current = some c → Event.handled c ∈ history → Event.finished c ∈ history

theorem CompletedInv.completed {history : List Event} {current : Option GDBCommand}
    (h : CompletedInv history current) : Completed history current :=
  ⟨h.log.once, h.log.justified, h.remains⟩

namespace SubProcess

/-- A handler that returns `Handled` finds its own command, which is not finished; and where
`CommandFinished` returns in `ReceivedNewLine`, the current command is finished. -/
structure FinishesOwn (s : SubProcess) (label : Label) : Prop where
  handled : ∀ c d, label = .answer .handled → s.frames = [.handling c] →
    s.currentCommand = some d → d = c ∧ Event.finished d ∉ s.history
  completing : ∀ a c d, label = .answer a → s.frames = [.completing c] →
    s.currentCommand = some d → Event.finished d ∈ s.history

end SubProcess

/-! ## The history -/

theorem mem_append_other {h : List Event} {e x : Event} (hne : x ≠ e) :
    x ∈ h ++ [e] ↔ x ∈ h := by
  rw [List.mem_append, List.mem_singleton]
  exact or_iff_left hne

namespace FinishLog

variable {h : List Event} {c : GDBCommand}

/-- An event that finishes nothing. -/
theorem append (hlog : FinishLog h) {e : Event} (hfinished : ∀ c, Event.finished c ≠ e)
    (hhandled : ∀ c, Event.handled c = e → c ∈ writtenOf h) : FinishLog (h ++ [e]) := by
  refine ⟨?_, ?_, ?_, ?_⟩
  · intro c
    have hne : (e == Event.finished c) = false := by simpa using (hfinished c).symm
    rw [List.count_append, List.count_singleton, hne]
    exact hlog.once c
  · intro a c b heq
    rcases append_singleton_split heq with ⟨-, hlast, -⟩ | ⟨b', -, hold⟩
    · exact absurd hlast (hfinished c)
    · exact hlog.justified a c b' hold
  · intro c hc
    rw [writtenOf_append]
    exact List.mem_append_left _ (hlog.finished c ((mem_append_other (hfinished c)).mp hc))
  · intro c hc
    rw [writtenOf_append]
    apply List.mem_append_left
    rcases List.mem_append.mp hc with hold | hnew
    · exact hlog.handled c hold
    · exact hhandled c (List.mem_singleton.mp hnew)

/-- `CommandFinished` is raised, for the first time. -/
theorem finish (hlog : FinishLog h) (hc : c ∈ writtenOf h) (hnot : Event.finished c ∉ h)
    (hjust : c.responseHandler = false ∨ ∃ a, h = a ++ [Event.handled c]) :
    FinishLog (h ++ [Event.finished c]) := by
  have hwritten : writtenOf (h ++ [Event.finished c]) = writtenOf h := writtenOf_other rfl h
  refine ⟨?_, ?_, ?_, ?_⟩
  · intro d
    rw [List.count_append, List.count_singleton]
    by_cases hd : d = c
    · rw [hd, List.count_eq_zero.mpr hnot]
      simp
    · have hne : (Event.finished c == Event.finished d) = false := by
        simpa using fun heq => hd heq.symm
      rw [hne]
      exact hlog.once d
  · intro a d b heq
    rcases append_singleton_split heq with ⟨-, hlast, rfl⟩ | ⟨b', -, hold⟩
    · cases hlast
      exact hjust.imp_left fun hplain => ⟨hplain, mem_writtenOf.mp hc⟩
    · exact hlog.justified a d b' hold
  · intro d hd
    rw [hwritten]
    rcases List.mem_append.mp hd with hold | hnew
    · exact hlog.finished d hold
    · cases List.mem_singleton.mp hnew
      exact hc
  · intro d hd
    rw [hwritten]
    exact hlog.handled d ((mem_append_other Event.noConfusion).mp hd)

end FinishLog

namespace CompletedInv

variable {h : List Event} {current : Option GDBCommand} {c : GDBCommand}

/-- An event that writes, handles and finishes nothing. -/
theorem neutral (hinv : CompletedInv h current) {e : Event} (hwritten : e.written? = none)
    (hhandled : ∀ c, Event.handled c ≠ e) (hfinished : ∀ c, Event.finished c ≠ e) :
    CompletedInv (h ++ [e]) current := by
  refine ⟨hinv.log.append hfinished fun c hc => absurd hc (hhandled c), ?_, ?_, ?_⟩
  · intro c
    rw [lastWritten_other hwritten, mem_append_other (hfinished c), mem_append_other (hhandled c)]
    exact hinv.remains c
  · intro c
    rw [mem_append_other (hfinished c)]
    exact hinv.plain c
  · intro c
    rw [mem_append_other (hfinished c), mem_append_other (hhandled c)]
    exact hinv.done c

/-- A current command that is finished is forgotten. -/
theorem forget (hinv : CompletedInv h current)
    (hfinished : ∀ c, current = some c → Event.finished c ∈ h) : CompletedInv h none := by
  refine ⟨hinv.log, ?_, ?_, ?_⟩
  · intro c hlast hnot hunhandled
    exact absurd (hfinished c (hinv.remains c hlast hnot hunhandled)) hnot
  · intro c hc
    cases hc
  · intro c hc
    cases hc

/-- A command is written. -/
theorem write (hinv : CompletedInv h current) (hnew : c ∉ writtenOf h)
    (hhandler : c.responseHandler = true) : CompletedInv (h ++ [Event.written c]) (some c) := by
  have hlog : FinishLog (h ++ [Event.written c]) :=
    hinv.log.append (fun _ => Event.noConfusion) fun _ => Event.noConfusion
  refine ⟨hlog, ?_, ?_, ?_⟩
  · intro d hlast _ _
    rw [← hlast, lastWritten_written]
  · intro d hd hplain
    cases hd
    rw [hhandler] at hplain
    cases hplain
  · intro d hd hmem
    cases hd
    have hold := (mem_append_other Event.noConfusion).mp hmem
    exact absurd (hinv.log.handled c hold) hnew

/-- The current command has just been finished. -/
theorem finish (hlog : FinishLog (h ++ [Event.finished c])) (hlast : lastWritten h = some c) :
    CompletedInv (h ++ [Event.finished c]) (some c) := by
  have hmem : Event.finished c ∈ h ++ [Event.finished c] :=
    List.mem_append_right _ (List.mem_singleton_self _)
  refine ⟨hlog, ?_, ?_, ?_⟩
  · intro d hd _ _
    rw [← hd, lastWritten_other rfl, hlast]
  · intro d hd _
    cases hd
    exact hmem
  · intro d hd _
    cases hd
    exact hmem

/-- A command without response handler is written. -/
theorem writePlain (hinv : CompletedInv h current) (hnew : c ∉ writtenOf h)
    (hplain : c.responseHandler = false) :
    CompletedInv (h ++ [Event.written c] ++ [Event.finished c]) (some c) := by
  have hwritten : FinishLog (h ++ [Event.written c]) :=
    hinv.log.append (fun _ => Event.noConfusion) fun _ => Event.noConfusion
  have hc : c ∈ writtenOf (h ++ [Event.written c]) :=
    mem_of_lastWritten (lastWritten_written h c)
  have hnot : Event.finished c ∉ h ++ [Event.written c] := by
    rw [mem_append_other Event.noConfusion]
    exact fun hmem => hnew (hinv.log.finished c hmem)
  exact finish (hwritten.finish hc hnot (Or.inl hplain)) (lastWritten_written h c)

/-- The handler of the current command returns `Handled`. -/
theorem handle (hinv : CompletedInv h (some c)) (hlast : lastWritten h = some c)
    (hnot : Event.finished c ∉ h) :
    CompletedInv (h ++ [Event.handled c] ++ [Event.finished c]) (some c) := by
  have hc := mem_of_lastWritten hlast
  have hhandled : FinishLog (h ++ [Event.handled c]) := by
    refine hinv.log.append (fun _ => Event.noConfusion) ?_
    intro d hd
    cases hd
    exact hc
  have hfinished : FinishLog (h ++ [Event.handled c] ++ [Event.finished c]) := by
    refine hhandled.finish ?_ ?_ (Or.inr ⟨h, rfl⟩)
    · rw [writtenOf_other rfl]
      exact hc
    · rw [mem_append_other Event.noConfusion]
      exact hnot
  refine finish hfinished ?_
  rw [lastWritten_other rfl, hlast]

/-- A handler returns `Handled`, and there is no current command. -/
theorem handleNone (hinv : CompletedInv h none) (hc : c ∈ writtenOf h) :
    CompletedInv (h ++ [Event.handled c]) none := by
  refine ⟨hinv.log.append (fun _ => Event.noConfusion) ?_, ?_, ?_, ?_⟩
  · intro d hd
    cases hd
    exact hc
  · intro d hlast hnot hunhandled
    rw [lastWritten_other rfl] at hlast
    refine hinv.remains d hlast ?_ ?_
    · exact fun hmem => hnot (List.mem_append_left _ hmem)
    · exact fun hmem => hunhandled (List.mem_append_left _ hmem)
  · intro d hd
    cases hd
  · intro d hd
    cases hd

end CompletedInv

/-! ## Steps -/

section

variable {s s' : SubProcess}

/-- The state is left with the same history and current command. -/
theorem CompletedInv.keeps (h : CompletedInv s.history s.currentCommand) (hkeeps : Keeps s s') :
    CompletedInv s'.history s'.currentCommand := by
  rw [hkeeps.history, hkeeps.current]
  exact h

theorem processQueue_completed (hshape : Shape s) (h : CompletedInv s.history s.currentCommand) :
    CompletedInv s.processQueue.history s.processQueue.currentCommand := by
  unfold SubProcess.processQueue
  cases hcommands : s.commands with
  | nil => exact h
  | cons c rest =>
      have hnew := hshape.ordered.head_not_written hcommands
      dsimp only
      split
      · split
        · rename_i hhandler
          exact h.write hnew hhandler
        · rename_i hplain
          exact h.writePlain hnew (Bool.not_eq_true _ ▸ hplain)
      · exact h

theorem receivedNewLine_completed (h : CompletedInv s.history s.currentCommand)
    (permanentHandlers : Nat) :
    CompletedInv (s.receivedNewLine permanentHandlers).history
      (s.receivedNewLine permanentHandlers).currentCommand := by
  have hforget : CompletedInv s.forgetCurrent.history s.forgetCurrent.currentCommand := by
    unfold SubProcess.forgetCurrent
    split
    · rename_i c hc
      split
      · exact h
      · rename_i hplain
        refine h.forget ?_
        intro d hd
        cases hc.symm.trans hd
        exact h.plain c hc (Bool.not_eq_true _ ▸ hplain)
    · exact h
  unfold SubProcess.receivedNewLine
  generalize s.forgetCurrent = t at hforget
  dsimp only
  split
  · exact hforget.neutral rfl (fun _ => Event.noConfusion) fun _ => Event.noConfusion
  · split
    · exact hforget.keeps (Keeps.received t)
    · exact hforget

theorem checkPrompt_completed (h : CompletedInv s.history s.currentCommand)
    (permanentHandlers : Nat) :
    CompletedInv (s.checkPrompt permanentHandlers).history
      (s.checkPrompt permanentHandlers).currentCommand := by
  unfold SubProcess.checkPrompt
  split
  · have hprompt : CompletedInv (s.history ++ [Event.prompt]) s.currentCommand :=
      h.neutral rfl (fun _ => Event.noConfusion) fun _ => Event.noConfusion
    apply receivedNewLine_completed
    split <;> exact hprompt
  · exact h

theorem returned_completed (hshape : Shape s) (h : CompletedInv s.history s.currentCommand)
    {answer : HandleResponseEnum} (hown : s.FinishesOwn (.answer answer))
    (hstep : s.returned answer = some s') : CompletedInv s'.history s'.currentCommand := by
  unfold SubProcess.returned at hstep
  split at hstep
  · rename_i c rest hframes
    cases hstep
    refine CompletedInv.keeps ?_ (Keeps.leaveQueue _)
    refine h.forget fun d hd => h.plain d hd ?_
    exact (hshape.finishing c (hframes ▸ List.mem_cons_self)).2 d hd
  · rename_i c hframes
    cases answer with
    | notHandled =>
        cases hstep
        exact h.keeps (Keeps.received s)
    | requestLine =>
        cases hstep
        split
        · exact h.keeps (Keeps.caught s)
        · exact h.keeps (Keeps.received s)
    | handled =>
        dsimp only at hstep
        split at hstep
        · rename_i d hd
          cases hstep
          obtain ⟨rfl, hnot⟩ := hown.handled c d rfl hframes hd
          have hlast := hshape.current d hd
          rw [hd] at h
          show CompletedInv _ s.currentCommand
          rw [hd]
          exact h.handle hlast hnot
        · rename_i hnone
          cases hstep
          refine CompletedInv.keeps ?_ (Keeps.caught _)
          have hc := hshape.handling c (hframes ▸ List.mem_singleton_self _)
          dsimp only at hnone ⊢
          rw [hnone] at h ⊢
          exact h.handleNone hc
  · rename_i c hframes
    cases hstep
    refine CompletedInv.keeps ?_ (Keeps.received _)
    exact h.forget fun d hd => hown.completing answer c d rfl hframes hd
  · cases answer with
    | handled =>
        cases hstep
        refine CompletedInv.keeps ?_ (Keeps.received _)
        exact h
    | requestLine =>
        cases hstep
        split
        · exact h
        · exact h.keeps (Keeps.received s)
    | notHandled =>
        dsimp only at hstep
        split at hstep
        · cases hstep
          exact h.keeps (Keeps.received s)
        · cases hstep
          exact h
  · cases hstep

theorem raised_completed (h : CompletedInv s.history s.currentCommand)
    (hstep : s.raised = some s') : CompletedInv s'.history s'.currentCommand := by
  unfold SubProcess.raised at hstep
  split at hstep
  · split at hstep
    · cases hstep
      exact h
    · cases hstep
      exact h
  · cases hstep
    exact h
  · cases hstep
    exact h.keeps (Keeps.caught s)
  · cases hstep
    exact h.keeps (Keeps.caught s)
  · cases hstep
    exact h
  · cases hstep

/-- A step that meets the condition. -/
theorem step_completed (hshape : Shape s) (h : CompletedInv s.history s.currentCommand)
    {permanentHandlers : Nat} {label : Label} (hown : s.FinishesOwn label)
    (hstep : s.step permanentHandlers label = some s') :
    CompletedInv s'.history s'.currentCommand := by
  have henqueue : ∀ responseHandler, CompletedInv (s.enqueue responseHandler).history
      (s.enqueue responseHandler).currentCommand :=
    fun _ => h.neutral rfl (fun _ => Event.noConfusion) fun _ => Event.noConfusion
  cases label with
  | enqueue responseHandler =>
      obtain ⟨-, heq⟩ := Option.ite_none_right_eq_some.mp hstep
      cases heq
      exact henqueue responseHandler
  | processQueue =>
      obtain ⟨⟨hlock, -⟩, heq⟩ := Option.ite_none_right_eq_some.mp hstep
      cases heq
      refine CompletedInv.keeps ?_ (Keeps.leaveQueue _)
      exact processQueue_completed (hshape.lockOther hlock) h
  | read c =>
      obtain ⟨-, heq⟩ := Option.ite_none_right_eq_some.mp hstep
      cases heq
      exact h.keeps (Keeps.readChar c s)
  | enter =>
      obtain ⟨-, ⟨read, -, rfl⟩ | ⟨-, rfl⟩⟩ := SubProcess.enter_cases hstep
      · exact receivedNewLine_completed (s := { s with lock := some (.newLine read) }) h
          permanentHandlers
      · exact checkPrompt_completed h permanentHandlers
  | promptQueue =>
      obtain ⟨-, heq⟩ := Option.ite_none_right_eq_some.mp hstep
      cases heq
      exact (processQueue_completed hshape h).keeps (Keeps.leaveQueue _)
  | stop =>
      obtain ⟨-, heq⟩ := Option.ite_none_right_eq_some.mp hstep
      cases heq
      exact h
  | callback responseHandler =>
      obtain ⟨-, heq⟩ := Option.ite_none_left_eq_some.mp hstep
      cases heq
      exact processQueue_completed (hshape.enqueue responseHandler) (henqueue responseHandler)
  | answer a => exact returned_completed hshape h hown hstep
  | raise => exact raised_completed h hstep

/-- `CommandFinished` is raised because the handler of `c` has returned `Handled`. -/
theorem Completed.own {h : List Event} {current : Option GDBCommand} {c d : GDBCommand}
    (hplain : d.responseHandler = false → Event.finished d ∈ h)
    (hcompleted : Completed (h ++ [Event.handled c] ++ [Event.finished d]) current) :
    d = c ∧ Event.finished d ∉ h := by
  have hnot : Event.finished d ∉ h := by
    intro hmem
    have honce := hcompleted.once d
    have hcount : 0 < h.count (Event.finished d) := List.count_pos_iff.mpr hmem
    rw [List.count_append, List.count_append, List.count_singleton_self] at honce
    omega
  refine ⟨?_, hnot⟩
  rcases hcompleted.justified _ d [] rfl with ⟨hfalse, -⟩ | ⟨a, ha⟩
  · exact absurd (hplain hfalse) hnot
  · have hlast := (List.append_inj' ha rfl).2
    cases hlast
    rfl

/-- A step behind which all is well has met the condition. -/
theorem finishesOwn_of_completed (hshape : Shape s) (h : CompletedInv s.history s.currentCommand)
    {permanentHandlers : Nat} {label : Label} (hstep : s.step permanentHandlers label = some s')
    (hcompleted : Completed s'.history s'.currentCommand) : s.FinishesOwn label := by
  refine ⟨?_, ?_⟩
  · rintro c d rfl hframes hd
    have heq : s.returned .handled = some s' := hstep
    unfold SubProcess.returned at heq
    rw [hframes] at heq
    dsimp only at heq
    rw [hd] at heq
    cases heq
    exact hcompleted.own (h.plain d hd)
  · rintro a c d rfl hframes hd
    have heq : s.returned a = some s' := hstep
    unfold SubProcess.returned at heq
    rw [hframes] at heq
    cases heq
    rw [(Keeps.received _).history, (Keeps.received _).current] at hcompleted
    by_contra hnot
    have hunhandled : Event.handled d ∉ s.history := fun hmem => hnot (h.done d hd hmem)
    have hcurrent := hcompleted.remains d (hshape.current d hd) hnot hunhandled
    cases hcurrent

end

theorem completed_inductive (permanentHandlers : Nat) :
    (subProcess permanentHandlers).Inductive SubProcess.FinishesOwn
      fun s => Shape s ∧ CompletedInv s.history s.currentCommand where
  init s hinit := by
    cases hinit
    refine ⟨shape_initial, ⟨?_, ?_, ?_, ?_⟩, ?_, ?_, ?_⟩
    · exact fun _ => Nat.zero_le 1
    · intro a c b heq
      cases a <;> cases heq
    · intro c hc
      cases hc
    · intro c hc
      cases hc
    · intro c hc
      cases hc
    · intro c hc
      cases hc
    · intro c hc
      cases hc
  step _ _ _ h hown hstep := ⟨h.1.step hstep, step_completed h.1 h.2 hown hstep⟩

/-- In every run whose steps meet the condition; and a step that does not meet it leads to a
state in which this no longer holds. -/
theorem commands_completed {permanentHandlers : Nat} {s : SubProcess}
    (hs : (subProcess permanentHandlers).ReachableBy SubProcess.FinishesOwn s) :
    Completed s.history s.currentCommand ∧
      ∀ label s', (subProcess permanentHandlers).step s label = some s' →
        (Completed s'.history s'.currentCommand ↔ s.FinishesOwn label) := by
  obtain ⟨hshape, hinv⟩ := (completed_inductive permanentHandlers).invariant s hs
  refine ⟨hinv.completed, ?_⟩
  intro label s' hstep
  constructor
  · exact finishesOwn_of_completed hshape hinv hstep
  · exact fun hown => (step_completed hshape hinv hown hstep).completed

/-- The innermost call is that of the current command, unless the answer finishes none. -/
def SubProcess.finishesOwn (s : SubProcess) : Label → Bool
  | .answer a =>
      match s.frames, s.currentCommand with
      | [.handling c], some d =>
          decide (a ≠ .handled) || (decide (d = c) && !s.history.contains (.finished d))
      | [.completing _], some d => s.history.contains (.finished d)
      | _, _ => true
  | _ => true

theorem finishesOwn_of_check {s : SubProcess} {label : Label} (h : s.finishesOwn label = true) :
    s.FinishesOwn label := by
  refine ⟨?_, ?_⟩
  · rintro c d rfl hframes hcurrent
    simpa [SubProcess.finishesOwn, hframes, hcurrent] using h
  · rintro a c d rfl hframes hcurrent
    simpa [SubProcess.finishesOwn, hframes, hcurrent] using h

theorem commands_completed_two :
    ∃ s, (subProcess 0).execWhere SubProcess.finishesOwn SubProcess.initial twoAnswered = some s ∧
      Event.finished ⟨0, true⟩ ∈ s.history ∧ Event.finished ⟨1, true⟩ ∈ s.history ∧
      s.currentCommand = none ∧ Completed s.history s.currentCommand := by
  obtain ⟨s, hexec, hfirst, hsecond, hnone⟩ : ∃ s,
      (subProcess 0).execWhere SubProcess.finishesOwn SubProcess.initial twoAnswered = some s ∧
      Event.finished ⟨0, true⟩ ∈ s.history ∧ Event.finished ⟨1, true⟩ ∈ s.history ∧
      s.currentCommand = none :=
    ⟨_, rfl, by decide, by decide, rfl⟩
  have hreach : (subProcess 0).ReachableBy SubProcess.FinishesOwn s :=
    TSys.ReachableBy.execWhere (fun _ _ => finishesOwn_of_check) (.init rfl) hexec
  exact ⟨s, hexec, hfirst, hsecond, hnone, (commands_completed hreach).1⟩

/-- At the prompt the callback of the handler queues a command, which is written at once. -/
def queuedByCallback : List Label :=
  .enqueue true :: readsText "(gdb)" ++ [.answer .handled, .promptQueue] ++ readsText "a\n(" ++
    [.answer .requestLine, .enter] ++ readsText "gdb)" ++ [.callback true, .answer .handled]

/-- `CommandFinished` is raised on it, and its handler has never been called. -/
theorem callback_command_finished :
    ∃ s, (subProcess 1).exec SubProcess.initial queuedByCallback = some s ∧
      Event.finished ⟨1, true⟩ ∈ s.history ∧ Event.handled ⟨1, true⟩ ∉ s.history ∧
      Event.finished ⟨0, true⟩ ∉ s.history ∧ ¬Completed s.history s.currentCommand := by
  obtain ⟨s, hexec, hlast, hfinished, hhandled, hnot⟩ : ∃ s,
      (subProcess 1).exec SubProcess.initial queuedByCallback = some s ∧
      (∃ h, s.history = h ++ [Event.handled ⟨0, true⟩] ++ [Event.finished ⟨1, true⟩]) ∧
      Event.finished ⟨1, true⟩ ∈ s.history ∧ Event.handled ⟨1, true⟩ ∉ s.history ∧
      Event.finished ⟨0, true⟩ ∉ s.history := by
    refine ⟨_, rfl, ⟨_, rfl⟩, by decide, by decide, by decide⟩
  refine ⟨s, hexec, hfinished, hhandled, hnot, ?_⟩
  intro hcompleted
  obtain ⟨h, hhistory⟩ := hlast
  rw [hhistory] at hcompleted
  obtain ⟨heq, -⟩ := hcompleted.own Bool.noConfusion
  cases heq

end InMemoryFuzzing.Gdb

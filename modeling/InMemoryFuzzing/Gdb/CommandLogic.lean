import InMemoryFuzzing.Gdb.SubProcess
import Mathlib.Data.List.Nodup

/-!
# The order of the commands

What the steps do to the queue and the history. Commands are written in the order of the
queue, and only if the prompt has been seen since the last one (`Ordered`); no two have the
same number.
-/

namespace InMemoryFuzzing.Gdb

open Base Platform DotNet

/-! ## The history -/

/-- Between two commands that are written there is a prompt. -/
def Separated (history : List Event) : Prop :=
  ∀ a c b d e, history = a ++ Event.written c :: (b ++ Event.written d :: e) → Event.prompt ∈ b

/-- Behind each command that has been written there is a prompt. -/
def PromptSince (history : List Event) : Prop :=
  ∀ a c b, history = a ++ Event.written c :: b → Event.prompt ∈ b

theorem writtenOf_append (h k : List Event) : writtenOf (h ++ k) = writtenOf h ++ writtenOf k :=
  List.filterMap_append

theorem enqueuedOf_append (h k : List Event) :
    enqueuedOf (h ++ k) = enqueuedOf h ++ enqueuedOf k :=
  List.filterMap_append

/-- An event that writes no command. -/
theorem writtenOf_other {e : Event} (he : e.written? = none) (h : List Event) :
    writtenOf (h ++ [e]) = writtenOf h := by
  have hnone : writtenOf [e] = [] := List.filterMap_cons_none he
  rw [writtenOf_append, hnone, List.append_nil]

theorem enqueuedOf_other {e : Event} (he : e.enqueued? = none) (h : List Event) :
    enqueuedOf (h ++ [e]) = enqueuedOf h := by
  have hnone : enqueuedOf [e] = [] := List.filterMap_cons_none he
  rw [enqueuedOf_append, hnone, List.append_nil]

theorem mem_writtenOf {history : List Event} {c : GDBCommand} :
    c ∈ writtenOf history ↔ Event.written c ∈ history := by
  rw [writtenOf, List.mem_filterMap]
  constructor
  · rintro ⟨e, he, hc⟩
    cases e <;> cases hc
    exact he
  · intro hmem
    exact ⟨_, hmem, rfl⟩

/-- The last event is `e`, or the two parts end in front of it. -/
theorem append_singleton_split {α : Type} {h a b : List α} {e x : α}
    (heq : h ++ [e] = a ++ x :: b) :
    (b = [] ∧ x = e ∧ a = h) ∨ ∃ b', b = b' ++ [e] ∧ h = a ++ x :: b' := by
  rcases List.eq_nil_or_concat b with rfl | ⟨b', y, rfl⟩
  · left
    obtain ⟨hfront, hlast⟩ := List.append_inj' heq rfl
    exact ⟨rfl, (List.singleton_inj.mp hlast).symm, hfront.symm⟩
  · right
    have hassoc : a ++ x :: (b' ++ [y]) = (a ++ x :: b') ++ [y] := by
      rw [List.append_assoc, List.cons_append]
    rw [List.concat_eq_append, hassoc] at heq
    obtain ⟨hfront, hlast⟩ := List.append_inj' heq rfl
    refine ⟨b', ?_, hfront⟩
    rw [List.concat_eq_append, List.singleton_inj.mp hlast]

theorem PromptSince.append {history : List Event} (h : PromptSince history) {e : Event}
    (he : e.written? = none) : PromptSince (history ++ [e]) := by
  intro a c b heq
  rcases append_singleton_split heq with ⟨-, rfl, -⟩ | ⟨b', rfl, hold⟩
  · cases he
  · exact List.mem_append_left _ (h a c b' hold)

theorem promptSince_prompt (history : List Event) : PromptSince (history ++ [Event.prompt]) := by
  intro a c b heq
  rcases append_singleton_split heq with ⟨-, hprompt, -⟩ | ⟨b', rfl, -⟩
  · cases hprompt
  · exact List.mem_append_right _ (List.mem_singleton_self _)

theorem Separated.append {history : List Event} (h : Separated history) {e : Event}
    (he : e.written? ≠ none → PromptSince history) : Separated (history ++ [e]) := by
  intro a c b d f heq
  have hassoc : a ++ Event.written c :: (b ++ Event.written d :: f) =
      (a ++ Event.written c :: b) ++ Event.written d :: f := by
    rw [List.append_assoc, List.cons_append]
  rw [hassoc] at heq
  rcases append_singleton_split heq with ⟨-, rfl, hold⟩ | ⟨f', rfl, hold⟩
  · exact he (by simp [Event.written?]) a c b hold.symm
  · rw [List.append_assoc, List.cons_append] at hold
    exact h a c b d f' hold

/-! ## Steps that leave the queue alone -/

/-- The queue, the flag, the current command and the history are the same. -/
structure Keeps (s s' : SubProcess) : Prop where
  commands : s'.commands = s.commands
  ready : s'.gdbReadyForInput = s.gdbReadyForInput
  current : s'.currentCommand = s.currentCommand
  history : s'.history = s.history

namespace Keeps

theorem refl (s : SubProcess) : Keeps s s := ⟨rfl, rfl, rfl, rfl⟩

theorem leaveQueue (s : SubProcess) : Keeps s s.leaveQueue := by
  unfold SubProcess.leaveQueue
  split <;> exact ⟨rfl, rfl, rfl, rfl⟩

theorem die (s : SubProcess) : Keeps s s.die := ⟨rfl, rfl, rfl, rfl⟩

theorem received (s : SubProcess) : Keeps s s.received := by
  unfold SubProcess.received
  split <;> exact ⟨rfl, rfl, rfl, rfl⟩

theorem caught (s : SubProcess) : Keeps s s.caught := by
  unfold SubProcess.caught
  split
  · split
    · exact received s
    · exact die s
  · exact die s

theorem readChar (read : Char) (s : SubProcess) : Keeps s (s.readChar read) := by
  unfold SubProcess.readChar
  split
  · split <;> exact ⟨rfl, rfl, rfl, rfl⟩
  · split
    · exact ⟨rfl, rfl, rfl, rfl⟩
    · split <;> exact ⟨rfl, rfl, rfl, rfl⟩

end Keeps

/-! ## The invariant -/

/-- The commands that have been written, and then those in the queue, are those that have been
queued. -/
structure Ordered (s : SubProcess) : Prop where
  order : enqueuedOf s.history = writtenOf s.history ++ s.commands
  numbers : (enqueuedOf s.history).map GDBCommand.number =
    List.range (enqueuedOf s.history).length
  separated : Separated s.history
  ready : s.gdbReadyForInput = true → PromptSince s.history

namespace Ordered

variable {s s' : SubProcess}

/-- Only the queue, the flag and the history matter. -/
theorem congr (h : Ordered s) (hcommands : s'.commands = s.commands)
    (hready : s'.gdbReadyForInput = s.gdbReadyForInput) (hhistory : s'.history = s.history) :
    Ordered s' := by
  refine ⟨?_, ?_, ?_, ?_⟩
  · rw [hhistory, hcommands]
    exact h.order
  · rw [hhistory]
    exact h.numbers
  · rw [hhistory]
    exact h.separated
  · rw [hhistory, hready]
    exact h.ready

theorem keeps (h : Ordered s) (hkeeps : Keeps s s') : Ordered s' :=
  h.congr hkeeps.commands hkeeps.ready hkeeps.history

/-- Another event. -/
theorem event (h : Ordered s) {e : Event} (he : e.enqueued? = none) (hw : e.written? = none)
    (hcommands : s'.commands = s.commands) (hready : s'.gdbReadyForInput = s.gdbReadyForInput)
    (hhistory : s'.history = s.history ++ [e]) : Ordered s' := by
  have henqueued := enqueuedOf_other he s.history
  have hwritten := writtenOf_other hw s.history
  refine ⟨?_, ?_, ?_, ?_⟩
  · rw [hhistory, hcommands, henqueued, hwritten]
    exact h.order
  · rw [hhistory, henqueued]
    exact h.numbers
  · rw [hhistory]
    exact h.separated.append fun hne => absurd hw hne
  · rw [hhistory, hready]
    exact fun htrue => (h.ready htrue).append hw

theorem enqueue (h : Ordered s) (responseHandler : Bool) : Ordered (s.enqueue responseHandler) := by
  unfold SubProcess.enqueue
  generalize hc : (⟨(enqueuedOf s.history).length, responseHandler⟩ : GDBCommand) = c
  have henqueued : enqueuedOf (s.history ++ [Event.enqueued c]) =
      enqueuedOf s.history ++ [c] := enqueuedOf_append _ _
  have hwritten := writtenOf_other (e := Event.enqueued c) rfl s.history
  refine ⟨?_, ?_, ?_, ?_⟩
  · show enqueuedOf (s.history ++ _) = writtenOf (s.history ++ _) ++ (s.commands ++ [c])
    rw [henqueued, hwritten, h.order, List.append_assoc]
  · show (enqueuedOf (s.history ++ _)).map _ = List.range (enqueuedOf (s.history ++ _)).length
    rw [henqueued, List.map_append, h.numbers, List.length_append, List.length_singleton,
      List.range_succ, ← hc]
    rfl
  · exact h.separated.append fun hne => absurd rfl hne
  · exact fun htrue => (h.ready htrue).append rfl

/-- The first command of the queue is written. -/
theorem write (h : Ordered s) {c : GDBCommand} {rest : List GDBCommand}
    (hcommands : s.commands = c :: rest) (hready : s.gdbReadyForInput = true) :
    Ordered { s with
      gdbReadyForInput := false
      commands := rest
      currentCommand := some c
      history := s.history ++ [Event.written c] } := by
  have henqueued := enqueuedOf_other (e := Event.written c) rfl s.history
  refine ⟨?_, ?_, ?_, ?_⟩
  · show enqueuedOf (s.history ++ _) = writtenOf (s.history ++ _) ++ rest
    rw [henqueued, writtenOf_append, h.order, hcommands, List.append_assoc]
    rfl
  · show (enqueuedOf (s.history ++ _)).map _ = List.range (enqueuedOf (s.history ++ _)).length
    rw [henqueued]
    exact h.numbers
  · exact h.separated.append fun _ => h.ready hready
  · intro hfalse
    cases hfalse

theorem processQueue (h : Ordered s) : Ordered s.processQueue := by
  unfold SubProcess.processQueue
  cases hcommands : s.commands with
  | nil => exact h
  | cons c rest =>
      dsimp only
      by_cases hready : s.gdbReadyForInput = true
      · rw [if_pos hready]
        have hwritten := h.write hcommands hready
        split
        · exact hwritten
        · exact hwritten.event (e := Event.finished c) rfl rfl rfl rfl rfl
      · rw [if_neg hready]
        exact h

theorem receivedNewLine (h : Ordered s) (permanentHandlers : Nat) :
    Ordered (s.receivedNewLine permanentHandlers) := by
  have hforget : Ordered s.forgetCurrent := by
    unfold SubProcess.forgetCurrent
    split
    · split
      · exact h
      · exact h.congr rfl rfl rfl
    · exact h
  unfold SubProcess.receivedNewLine
  dsimp only
  split
  · exact hforget.event (e := Event.called _ _) rfl rfl rfl rfl rfl
  · split
    · exact hforget.keeps (Keeps.received _)
    · exact hforget.congr rfl rfl rfl

/-- The prompt is recognised. -/
theorem prompt (h : Ordered s) : Ordered { s with
    gdbReadyForInput := true
    history := s.history ++ [Event.prompt] } := by
  have hother : Ordered { s with history := s.history ++ [Event.prompt] } :=
    h.event (e := Event.prompt) rfl rfl rfl rfl rfl
  exact ⟨hother.order, hother.numbers, hother.separated, fun _ => promptSince_prompt s.history⟩

theorem checkPrompt (h : Ordered s) (permanentHandlers : Nat) :
    Ordered (s.checkPrompt permanentHandlers) := by
  unfold SubProcess.checkPrompt
  split
  · apply receivedNewLine
    split <;> exact h.prompt.congr rfl rfl rfl
  · exact h.congr rfl rfl rfl

theorem returned (h : Ordered s) {answer : HandleResponseEnum}
    (hstep : s.returned answer = some s') : Ordered s' := by
  unfold SubProcess.returned at hstep
  split at hstep
  · cases hstep
    refine keeps ?_ (Keeps.leaveQueue _)
    exact h.congr rfl rfl rfl
  · rename_i c _
    cases answer with
    | notHandled =>
        cases hstep
        exact h.keeps (Keeps.received s)
    | requestLine =>
        cases hstep
        split
        · exact h.keeps (Keeps.caught s)
        · exact h.keeps (Keeps.received s)
    | handled =>
        have hhandled : Ordered { s with history := s.history ++ [Event.handled c] } :=
          h.event (e := Event.handled c) rfl rfl rfl rfl rfl
        dsimp only at hstep
        split at hstep
        · cases hstep
          exact hhandled.event (e := Event.finished _) rfl rfl rfl rfl rfl
        · cases hstep
          exact hhandled.keeps (Keeps.caught _)
  · cases hstep
    refine keeps ?_ (Keeps.received _)
    exact h.congr rfl rfl rfl
  · cases answer with
    | handled =>
        cases hstep
        refine keeps ?_ (Keeps.received _)
        exact h.congr rfl rfl rfl
    | requestLine =>
        cases hstep
        split
        · exact h.keeps (Keeps.die s)
        · exact h.keeps (Keeps.received s)
    | notHandled =>
        dsimp only at hstep
        split at hstep
        · cases hstep
          exact h.keeps (Keeps.received s)
        · cases hstep
          exact h.congr rfl rfl rfl
  · cases hstep

theorem raised (h : Ordered s) (hstep : s.raised = some s') : Ordered s' := by
  unfold SubProcess.raised at hstep
  split at hstep
  · split at hstep
    · cases hstep
      exact h.keeps (Keeps.die s)
    · cases hstep
      exact h.congr rfl rfl rfl
  · cases hstep
    exact h.congr rfl rfl rfl
  · cases hstep
    exact h.keeps (Keeps.caught s)
  · cases hstep
    exact h.keeps (Keeps.caught s)
  · cases hstep
    exact h.keeps (Keeps.die s)
  · cases hstep

/-- A step. -/
theorem step (h : Ordered s) {permanentHandlers : Nat} {label : Label}
    (hstep : s.step permanentHandlers label = some s') : Ordered s' := by
  cases label with
  | enqueue responseHandler =>
      obtain ⟨-, heq⟩ := Option.ite_none_right_eq_some.mp hstep
      cases heq
      exact (h.enqueue responseHandler).congr rfl rfl rfl
  | processQueue =>
      obtain ⟨-, heq⟩ := Option.ite_none_right_eq_some.mp hstep
      cases heq
      have hlocked : Ordered { s with queueing := s.queueing - 1, lock := some .other } :=
        h.congr rfl rfl rfl
      exact hlocked.processQueue.keeps (Keeps.leaveQueue _)
  | read c =>
      obtain ⟨-, heq⟩ := Option.ite_none_right_eq_some.mp hstep
      cases heq
      exact h.keeps (Keeps.readChar c s)
  | enter =>
      obtain ⟨-, ⟨read, -, rfl⟩ | ⟨-, rfl⟩⟩ := SubProcess.enter_cases hstep
      · refine receivedNewLine ?_ permanentHandlers
        exact h.congr rfl rfl rfl
      · exact h.checkPrompt permanentHandlers
  | promptQueue =>
      obtain ⟨-, heq⟩ := Option.ite_none_right_eq_some.mp hstep
      cases heq
      exact h.processQueue.keeps (Keeps.leaveQueue _)
  | stop =>
      obtain ⟨-, heq⟩ := Option.ite_none_right_eq_some.mp hstep
      cases heq
      exact h.congr rfl rfl rfl
  | callback responseHandler =>
      obtain ⟨-, heq⟩ := Option.ite_none_left_eq_some.mp hstep
      cases heq
      exact (h.enqueue responseHandler).processQueue
  | answer a => exact h.returned hstep
  | raise => exact h.raised hstep

/-- No two commands have the same number. -/
theorem nodup (h : Ordered s) : (enqueuedOf s.history).Nodup := by
  have hnumbers : ((enqueuedOf s.history).map GDBCommand.number).Nodup := by
    rw [h.numbers]
    exact List.nodup_range
  exact hnumbers.of_map _

/-- A command that is written is none of those that have been. -/
theorem head_not_written (h : Ordered s) {c : GDBCommand} {rest : List GDBCommand}
    (hcommands : s.commands = c :: rest) : c ∉ writtenOf s.history := by
  have hnodup := h.nodup
  rw [h.order, hcommands] at hnodup
  exact fun hc => (List.nodup_append.mp hnodup).2.2 c hc c List.mem_cons_self rfl

end Ordered

theorem ordered_inductive (permanentHandlers : Nat) :
    (subProcess permanentHandlers).Inductive TSys.anyStep Ordered where
  init s hinit := by
    cases hinit
    refine ⟨rfl, rfl, ?_, ?_⟩
    · intro a c b d e heq
      cases a <;> cases heq
    · intro hfalse
      cases hfalse
  step _ _ _ h _ hstep := h.step hstep

end InMemoryFuzzing.Gdb

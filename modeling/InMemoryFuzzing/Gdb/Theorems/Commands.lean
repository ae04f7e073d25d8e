import InMemoryFuzzing.Gdb.CommandLogic

/-!
# Commands are written in order

For any interleaving of `QueueCommand`, of the output of gdb, and of what handlers and
callbacks do under the lock, the commands are written in the order in which they have been
queued, each once, and with a prompt between any two (`commands_in_order`).
-/

namespace InMemoryFuzzing.Gdb

open Base Platform DotNet

/-- In every reachable state. -/
theorem commands_in_order {permanentHandlers : Nat} {s : SubProcess}
    (hs : (subProcess permanentHandlers).Reachable s) :
    enqueuedOf s.history = writtenOf s.history ++ s.commands ∧ (enqueuedOf s.history).Nodup ∧
      Separated s.history := by
  have h := (ordered_inductive permanentHandlers).invariant s hs
  exact ⟨h.order, h.nodup, h.separated⟩

/-- The reader reads a text. -/
def readsText (text : String) : List Label := text.toList.flatMap fun c => [.read c, .enter]

/-- Two commands are queued. gdb answers each of them with a line, which its handler handles. -/
def twoAnswered : List Label :=
  [.enqueue true, .enqueue true] ++ readsText "(gdb)" ++ [.promptQueue] ++ readsText "a\n(" ++
    [.answer .handled, .answer .handled, .enter] ++ readsText "gdb)" ++ [.promptQueue] ++
    readsText "b\n(" ++ [.answer .handled, .answer .handled]

/-- Two commands without response handler are queued, and two prompts arrive. -/
def twoCommands : List Label :=
  [.enqueue false, .enqueue false, .processQueue] ++ readsText "(gdb)" ++
    [.promptQueue, .answer .handled, .processQueue] ++ readsText " (gdb)" ++
    [.promptQueue, .answer .handled]

theorem commands_in_order_two :
    ∃ s, (subProcess 0).exec SubProcess.initial twoCommands = some s ∧
      writtenOf s.history = [⟨0, false⟩, ⟨1, false⟩] ∧ s.commands = [] ∧
      enqueuedOf s.history = writtenOf s.history ++ s.commands ∧
      Separated s.history := by
  obtain ⟨s, hexec, hwritten, hqueue⟩ : ∃ s,
      (subProcess 0).exec SubProcess.initial twoCommands = some s ∧
      writtenOf s.history = [⟨0, false⟩, ⟨1, false⟩] ∧ s.commands = [] := ⟨_, rfl, rfl, rfl⟩
  have hreach : (subProcess 0).Reachable s :=
    TSys.Reachable.exec twoCommands (TSys.ReachableBy.init rfl) hexec
  obtain ⟨horder, -, hseparated⟩ := commands_in_order hreach
  exact ⟨s, hexec, hwritten, hqueue, horder, hseparated⟩

end InMemoryFuzzing.Gdb

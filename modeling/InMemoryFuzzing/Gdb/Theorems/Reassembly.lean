import InMemoryFuzzing.Gdb.Reassembly
import InMemoryFuzzing.Gdb.Theorems.Commands

/-!
# No character of gdb is lost

Up to white space, the characters that have been read are those of the prompts and lines that have
been made of them, then those of the two lines that the reader keeps. The last line is overwritten
without a look at it; that it is empty then is part of the invariant (`Whole.last`).
-/

namespace InMemoryFuzzing.Gdb

open Base Platform DotNet

/-! ## White space -/

/-- The characters of a text that are no white space. -/
def visible (text : List Char) : List Char := text.filter fun c => !isWhiteSpace c

@[simp] theorem visible_append (front back : List Char) :
    visible (front ++ back) = visible front ++ visible back := List.filter_append ..

@[simp] theorem visible_nil : visible [] = [] := rfl

theorem visible_white {c : Char} (h : isWhiteSpace c = true) : visible [c] = [] := by
  simp [visible, h]

theorem visible_dropWhile (text : List Char) :
    visible (text.dropWhile isWhiteSpace) = visible text := by
  induction text with
  | nil => rfl
  | cons c text ih =>
      by_cases h : isWhiteSpace c = true
      · rw [List.dropWhile_cons_of_pos h, ih]
        simp [visible, h]
      · rw [List.dropWhile_cons_of_neg h]

/-- Trimming takes only white space away. -/
theorem visible_trim (text : List Char) : visible (trim text) = visible text := by
  have hreverse : ∀ text : List Char, visible text.reverse = (visible text).reverse := fun text =>
    List.filter_reverse ..
  rw [trim, hreverse, visible_dropWhile, hreverse, visible_dropWhile, List.reverse_reverse]

/-! ## The invariant -/

/-- What the reader keeps: the last line, the current line, and the character at hand. -/
def SubProcess.text (s : SubProcess) : List Char := s.lastLine.text ++ s.currentLine ++ s.pending

structure Whole (s : SubProcess) (g : Reading) : Prop where
  shape : Shape s
  tied : Tied s
  /-- While a line is being put together the last line is empty. -/
  last : s.currentLine ≠ [] → s.lastLine.text = []
  newLine : ∀ read, s.reader = .newLine read → s.currentLine = []
  lost : s.reader ≠ .ended → g.lost = []
  kept : visible g.chars = visible (g.items.flatMap Item.text ++ s.text ++ g.lost)

/-- A quiet step adds nothing to what has been taken in front of it. -/
theorem Quiet.taken_of {s t s' : SubProcess} (h : Quiet t s') (hlines : t.currentLines = s.currentLines)
    (hhistory : ∃ events, t.history = s.history ++ events) {items : List Item}
    (htaken : s.taken t = items) : s.taken s' = items := by
  obtain ⟨before, hbefore⟩ := hhistory
  obtain ⟨events, hevents, hnone⟩ := h.history
  have hdrop : s'.currentLines.drop s.currentLines.length = [] := by
    rcases h.lines with hsame | hnil
    · rw [hsame, hlines, List.drop_length]
    · rw [hnil, List.drop_nil]
  rw [SubProcess.taken, hlines, List.drop_length, List.map_nil, List.append_nil, hbefore,
    List.drop_left] at htaken
  rw [SubProcess.taken, hdrop, List.map_nil, List.append_nil, hevents, hbefore, List.append_assoc,
    List.drop_left, List.filterMap_append, htaken, hnone, List.append_nil]

theorem Quiet.taken {s s' : SubProcess} (h : Quiet s s') : s.taken s' = [] := by
  refine h.taken_of rfl ⟨[], (List.append_nil _).symm⟩ ?_
  simp [SubProcess.taken]

/-- A character at hand is appended, or it is lost. -/
theorem Quiet.text {s s' : SubProcess} (h : Quiet s s') {lost : List Char}
    (hlost : s.reader ≠ .ended → lost = []) :
    s'.text ++ (if s'.reader = .ended ∧ s.reader ≠ .ended then s.pending else lost) =
      s.text ++ lost := by
  have hlast := congrArg Line.text h.lastLine
  cases h.moves with
  | stays hreader hline =>
      rw [if_neg fun hended => hended.2 (hreader ▸ hended.1)]
      simp [SubProcess.text, SubProcess.pending, hlast, hreader, hline]
  | appends read hreader hreader' hline =>
      rw [if_neg (by simp [hreader'])]
      simp [SubProcess.text, SubProcess.pending, hlast, hreader, hreader', hline]
  | passes hreader hreader' hline =>
      rw [if_neg (by simp [hreader'])]
      simp [SubProcess.text, SubProcess.pending, hlast, hreader, hreader', hline]
  | leaves hreader' hline =>
      by_cases hended : s.reader = .ended
      · rw [if_neg fun h => h.2 hended]
        simp [SubProcess.text, SubProcess.pending, hlast, hended, hreader', hline]
      · rw [if_pos ⟨hreader', hended⟩, hlost hended]
        simp [SubProcess.text, SubProcess.pending, hlast, hreader', hline]

namespace Whole

variable {s s' : SubProcess} {g : Reading} {label : Label}

/-- A step of the others keeps everything as it is. -/
theorem quiet (h : Whole s g) (hquiet : Quiet s s') (hshape : Shape s') (hchar : label.char? = []) :
    Whole s' (g.note s label s') := by
  have htext := hquiet.text h.lost
  refine ⟨hshape, hquiet.tied, ?_, ?_, ?_, ?_⟩
  · intro hne
    rw [hquiet.lastLine]
    cases hquiet.moves with
    | stays _ hline => exact h.last (hline ▸ hne)
    | appends read hreader _ _ => exact h.shape.newLine read hreader
    | passes _ _ hline => exact h.last (hline ▸ hne)
    | leaves _ hline => exact h.last (hline ▸ hne)
  · intro read hnew
    cases hquiet.moves with
    | stays hreader hline => rw [hline, h.newLine read (hreader ▸ hnew)]
    | appends _ _ hreader _ => simp [hreader] at hnew
    | passes _ hreader _ => simp [hreader] at hnew
    | leaves hreader _ => simp [hreader] at hnew
  · intro hne
    rw [Reading.note, if_neg fun hended => hne hended.1]
    apply h.lost
    intro hended
    cases hquiet.moves with
    | stays hreader _ => exact hne (hreader.trans hended)
    | appends _ hreader _ _ => simp [hreader] at hended
    | passes hreader _ _ => simp [hreader] at hended
    | leaves hreader _ => exact hne hreader
  · rw [Reading.note]
    dsimp only
    rw [hchar, List.append_nil, hquiet.taken, List.append_nil, List.append_assoc, htext, h.kept,
      List.append_assoc]

/-! ### A character is read -/

/-- A step of the reader that loses no character, and what it makes of the lines. -/
theorem progress (h : Whole s g) (hshape : Shape s') (htied : Tied s')
    (hlast : s'.currentLine ≠ [] → s'.lastLine.text = [])
    (hnew : ∀ read, s'.reader = .newLine read → s'.currentLine = [])
    (hreader : s.reader ≠ .ended) (hreader' : s'.reader = .ended → s.pending = [])
    (hkept : visible (s.text ++ label.char?) =
      visible ((s.taken s').flatMap Item.text ++ s'.text)) :
    Whole s' (g.note s label s') := by
  have hnone := h.lost hreader
  have hsame : (g.note s label s').lost = [] := by
    by_cases hended : s'.reader = .ended
    · rw [Reading.note, if_pos ⟨hended, hreader⟩, hreader' hended]
    · rw [Reading.note, if_neg fun h => hended h.1, hnone]
  refine ⟨hshape, htied, hlast, hnew, fun _ => hsame, ?_⟩
  have hbefore := h.kept
  rw [hnone, List.append_nil] at hbefore
  rw [hsame, Reading.note]
  simp only [visible_append, List.flatMap_append, List.append_nil] at hbefore hkept ⊢
  rw [hbefore, List.append_assoc, List.append_assoc, hkept]

/-- No line is complete. -/
theorem rearranges (h : Whole s g) (hshape : Shape s') (htied : Tied s')
    (hlast : s'.currentLine ≠ [] → s'.lastLine.text = [])
    (hnew : ∀ read, s'.reader = .newLine read → s'.currentLine = [])
    (hreader : s.reader ≠ .ended) (hreader' : s'.reader ≠ .ended)
    (hhistory : s'.history = s.history) (hlines : s'.currentLines = s.currentLines)
    (hkept : visible (s.text ++ label.char?) = visible s'.text) :
    Whole s' (g.note s label s') := by
  refine h.progress hshape htied hlast hnew hreader (fun hended => absurd hended hreader') ?_
  have htaken : s.taken s' = [] := by simp [SubProcess.taken, hhistory, hlines]
  rw [htaken, hkept]
  rfl

theorem readChar (h : Whole s g) (hreader : s.reader = .reading) (c : Char)
    (hshape : Shape (s.readChar c)) : Whole (s.readChar c) (g.note s (.read c) (s.readChar c)) := by
  have hnotEnded : s.reader ≠ .ended := by simp [hreader]
  have htied : ∀ t : SubProcess, t.lock = s.lock → Tied t := fun t ht =>
    .of_other (ht ▸ h.shape.lock_other hreader)
  unfold SubProcess.readChar at hshape ⊢
  by_cases hbreak : c = '\n' ∨ c = '\r'
  · have hwhite : visible [c] = [] := by
      rcases hbreak with rfl | rfl <;> exact visible_white rfl
    rw [if_pos hbreak] at hshape ⊢
    by_cases hempty : trim s.currentLine = []
    · rw [if_pos hempty] at hshape ⊢
      refine h.rearranges hshape h.tied h.last h.newLine hnotEnded hnotEnded rfl rfl ?_
      rw [visible_append, Label.char?, hwhite, List.append_nil]
    · -- the last line is overwritten, and it is empty
      have hnonempty : s.currentLine ≠ [] := by
        rintro hnil
        exact hempty (by rw [hnil]; rfl)
      rw [if_neg hempty] at hshape ⊢
      refine h.rearranges hshape (htied _ rfl) (fun hne => absurd rfl hne) nofun hnotEnded nofun
        rfl rfl ?_
      rw [visible_append, Label.char?, hwhite]
      simp [SubProcess.text, SubProcess.pending, hreader, h.last hnonempty]
  · rw [if_neg hbreak] at hshape ⊢
    by_cases hspace : s.currentLine = [] ∧ c = ' '
    · obtain ⟨hnil, rfl⟩ := hspace
      rw [if_pos ⟨hnil, rfl⟩] at hshape ⊢
      refine h.rearranges hshape (htied _ rfl) (fun _ => rfl) nofun hnotEnded nofun rfl rfl ?_
      rw [visible_append, Label.char?, visible_white rfl]
      simp [SubProcess.text, SubProcess.pending, hreader, hnil]
    · rw [if_neg hspace] at hshape ⊢
      by_cases hcomplete : s.currentLine = [] ∧ s.lastLine.text ≠ []
      · rw [if_pos hcomplete] at hshape ⊢
        refine h.progress hshape (htied _ rfl) (fun _ => rfl) (fun _ _ => hcomplete.1) hnotEnded
          nofun ?_
        have hline : s.taken { s.addLastLine with reader := .newLine c } =
            [.line s.lastLine.text] := by
          simp [SubProcess.taken, SubProcess.addLastLine]
        rw [hline]
        simp [SubProcess.text, SubProcess.pending, hreader, hcomplete.1, Label.char?, Item.text,
          SubProcess.addLastLine]
      · rw [if_neg hcomplete] at hshape ⊢
        have hlast : s.lastLine.text = [] := by
          by_cases hnil : s.currentLine = []
          · by_contra hne
            exact hcomplete ⟨hnil, hne⟩
          · exact h.last hnil
        refine h.rearranges hshape (htied _ rfl) (fun _ => hlast) nofun hnotEnded nofun rfl rfl ?_
        simp [SubProcess.text, SubProcess.pending, hreader, Label.char?]

/-! ### The prompt -/

theorem checkPrompt (h : Whole s g) (hreader : s.reader = .check)
    (hprompt : trim s.currentLine = "(gdb)".toList) (permanentHandlers : Nat)
    (hshape : Shape (s.checkPrompt permanentHandlers)) :
    Whole (s.checkPrompt permanentHandlers)
      (g.note s .enter (s.checkPrompt permanentHandlers)) := by
  have hlast : s.lastLine.text = [] := by
    refine h.last fun hnil => ?_
    rw [hnil] at hprompt
    cases hprompt
  rw [SubProcess.checkPrompt, if_pos hprompt] at hshape ⊢
  dsimp only at hshape ⊢
  rw [if_neg (by simp [hlast])] at hshape ⊢
  -- the prompt is recognised, and `ReceivedNewLine` is quiet behind that
  generalize hrecognised : { s with
    currentLine := []
    gdbReadyForInput := true
    lock := some .prompt
    history := s.history ++ [Event.prompt] } = t at hshape ⊢
  have htied : Tied t := by
    rw [← hrecognised]
    refine ⟨fun read hlock => ?_, fun _ => hreader, fun hlock => ?_⟩
    · cases hlock
    · cases hlock
  have hreceiving : t.Receiving := by
    rw [← hrecognised]
    exact ⟨.prompt, rfl, rfl⟩
  have hquiet := Quiet.receivedNewLine htied hreceiving permanentHandlers
  generalize t.receivedNewLine permanentHandlers = s' at hshape hquiet ⊢
  have htaken : s.taken s' = [.prompt] := by
    have hprompts : s.taken t = [.prompt] := by
      rw [← hrecognised]
      simp [SubProcess.taken, Event.prompt?]
    exact hquiet.taken_of (by rw [← hrecognised]) ⟨_, by rw [← hrecognised]⟩ hprompts
  obtain ⟨hline, hpending, hnew⟩ : s'.currentLine = [] ∧ s'.pending = [] ∧
      ∀ read, s'.reader ≠ .newLine read := by
    subst hrecognised
    cases hquiet.moves with
    | stays hr hl => exact ⟨hl, by simp [SubProcess.pending, hr, hreader], by simp [hr, hreader]⟩
    | appends read hr _ _ =>
        have hnone := hreader.symm.trans hr
        cases hnone
    | passes _ hr hl => exact ⟨hl, by simp [SubProcess.pending, hr], by simp [hr]⟩
    | leaves hr hl => exact ⟨hl, by simp [SubProcess.pending, hr], by simp [hr]⟩
  have hlast' : s'.lastLine.text = [] := by
    rw [hquiet.lastLine, ← hrecognised]
    exact hlast
  refine h.progress hshape hquiet.tied (fun _ => hlast') (fun read hr => absurd hr (hnew read))
    (by simp [hreader]) (fun _ => by simp [SubProcess.pending, hreader]) ?_
  have htext : visible s.currentLine = "(gdb)".toList := by
    rw [← visible_trim, hprompt]
    rfl
  have hbefore : s.text = s.currentLine := by
    simp [SubProcess.text, SubProcess.pending, hreader, hlast]
  have hafter : s'.text = [] := by simp [SubProcess.text, hlast', hline, hpending]
  rw [htaken, hbefore, hafter]
  simp [Label.char?, Item.text, htext]
  rfl

/-! ### Runs -/

theorem step (h : Whole s g) {permanentHandlers : Nat}
    (hstep : s.step permanentHandlers label = some s') : Whole s' (g.note s label s') := by
  have hshape := h.shape.step hstep
  rcases quiet_of_step h.tied h.shape hstep with
    ⟨c, rfl, hreader, rfl⟩ | ⟨rfl, -, hreader, hprompt, rfl⟩ | ⟨hchar, hquiet⟩
  · exact h.readChar hreader c hshape
  · exact h.checkPrompt hreader hprompt permanentHandlers hshape
  · exact h.quiet hquiet hshape hchar

theorem initial : Whole SubProcess.initial ⟨[], [], []⟩ where
  shape := shape_initial
  tied := ⟨nofun, nofun, nofun⟩
  last hne := absurd rfl hne
  newLine _ hnew := nomatch hnew
  lost _ := rfl
  kept := rfl

end Whole

theorem whole_inductive (permanentHandlers : Nat) :
    (readingSystem permanentHandlers).Inductive TSys.anyStep fun s => Whole s.1 s.2 where
  init s hinit := by
    obtain ⟨s, g⟩ := s
    obtain ⟨rfl, rfl⟩ := hinit
    exact Whole.initial
  step s label s' h _ hstep := by
    obtain ⟨hmove, hnote⟩ := TSys.recorded_step.mp hstep
    rw [hnote]
    exact h.step hmove

/-- The record is kept of every run. -/
theorem reachable_reading {permanentHandlers : Nat} {s : SubProcess}
    (hs : (subProcess permanentHandlers).Reachable s) :
    ∃ g, (readingSystem permanentHandlers).Reachable (s, g) :=
  TSys.Reachable.recorded _ Reading.note hs

/-- For every sequence of characters and in every reachable state. Besides the two lines there is
only the character at hand, while a line in front of it is being handled. -/
theorem reassembly_keeps_all {permanentHandlers : Nat} {s : SubProcess} {g : Reading}
    (hs : (readingSystem permanentHandlers).Reachable (s, g)) :
    visible g.chars = visible (g.items.flatMap Item.text ++ s.lastLine.text ++ s.currentLine ++
      s.pending ++ g.lost) ∧
    (s.reader ≠ .ended → g.lost = []) ∧
    (s.reader = .reading ∨ s.reader = .check → visible g.chars =
      visible (g.items.flatMap Item.text ++ s.lastLine.text ++ s.currentLine)) := by
  have h := (whole_inductive permanentHandlers).invariant _ hs
  have hkept := h.kept
  rw [SubProcess.text] at hkept
  refine ⟨by simpa using hkept, h.lost, fun hreader => ?_⟩
  have hnone : s.pending = [] ∧ g.lost = [] := by
    rcases hreader with hr | hr
    · exact ⟨by simp [SubProcess.pending, hr], h.lost (by simp [hr])⟩
    · exact ⟨by simp [SubProcess.pending, hr], h.lost (by simp [hr])⟩
  simpa [hnone.1, hnone.2] using hkept

/-- The line goes on behind the line break, and the prompt follows. -/
def brokenLine : List Label :=
  readsText "a\n b\n(" ++ [.enter] ++ readsText "gdb)"

theorem reassembly_keeps_all_line :
    ∃ s g, (readingSystem 0).exec (SubProcess.initial, ⟨[], [], []⟩) brokenLine = some (s, g) ∧
      g.items = [.line "ab".toList, .prompt] ∧
      visible g.chars = visible (g.items.flatMap Item.text ++ s.lastLine.text ++ s.currentLine ++
        s.pending ++ g.lost) := by
  obtain ⟨s, g, hexec, hitems⟩ : ∃ s g,
      (readingSystem 0).exec (SubProcess.initial, ⟨[], [], []⟩) brokenLine = some (s, g) ∧
      g.items = [.line "ab".toList, .prompt] := ⟨_, _, rfl, rfl⟩
  have hinit : (readingSystem 0).Reachable (SubProcess.initial, ⟨[], [], []⟩) := .init ⟨rfl, rfl⟩
  have hreach : (readingSystem 0).Reachable (s, g) :=
    TSys.Reachable.exec brokenLine hinit hexec
  exact ⟨s, g, hexec, hitems, (reassembly_keeps_all hreach).1⟩

end InMemoryFuzzing.Gdb

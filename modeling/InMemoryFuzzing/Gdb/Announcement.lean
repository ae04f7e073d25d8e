import InMemoryFuzzing.Gdb.StopLogic

/-!
# Announcements

What gdb writes when the program stops, and what the connector is told of it
(`receiveOutput_announcement`).
-/

namespace InMemoryFuzzing.Gdb

open Base Platform DotNet Regex

/-- Where the program is; the place does not look like another stop. -/
structure FrameLine (chars : CharData) where
  address : PrintedAddress
  place : List Char
  unclaimed : Unclaimed chars (frameText address place)

/-- A stop at the beginning of a line of the source. -/
structure SourceLine (chars : CharData) where
  num : Nat
  function : List Char
  args : List Char
  file : List Char
  word : ∀ c ∈ function, isWhiteSpace c = false
  noAddress : (BreakpointRH.rAddress chars).search (sourceText num function args file) = none

/-- The end by a signal; its description does not look like another stop. -/
structure Termination (chars : CharData) where
  name : List Char
  friendly : List Char
  unclaimed : Unclaimed chars (terminatedText name friendly)

/-- What gdb writes when the program stops. -/
inductive Announcement (chars : CharData)
  | breakpoint (num : Nat) (address : PrintedAddress) (place : List Char)
  | source (line : SourceLine chars)
  | exited
  | exitedWithCode (exit : ExitCode)
  | inferiorExited (num pid : Nat)
  | inferiorExitedWithCode (num pid : Nat) (exit : ExitCode)
  | terminated (ending : Termination chars)
  | signal (known : KnownSignal chars) (frame : Option (FrameLine chars))
  | noHistory (frame : Option (FrameLine chars))

namespace Announcement

variable {chars : CharData}

def frameLines (frame : Option (FrameLine chars)) : List (List Char) :=
  frame.toList.map fun frame => frameText frame.address frame.place

def lines : Announcement chars → List (List Char)
  | .breakpoint num address place => [breakpointText num address place]
  | .source line => [sourceText line.num line.function line.args line.file]
  | .exited => [exitText]
  | .exitedWithCode exit => [exitCodeText exit.digits]
  | .inferiorExited num pid => [inferiorExitText num pid]
  | .inferiorExitedWithCode num pid exit => [inferiorExitCodeText num pid exit.digits]
  | .terminated ending => [terminatedText ending.name ending.friendly]
  | .signal known frame => signalText known.name known.friendly :: frameLines frame
  | .noHistory frame => noHistoryText :: frameLines frame

/-- The call of `GdbStopped` for it. Of the ends of the program there is one only for the old
line of an exit with a code. -/
def stop (breakpoints : Breakpoints) : Announcement chars → Option GdbStop
  | .breakpoint num address _ => (breakpoints.lookupBreakpoint num).map fun br =>
      ⟨.breakpoint, some br, address.value, 0⟩
  | .source line => (breakpoints.lookupBreakpoint line.num).map fun br =>
      ⟨.breakpoint, some br, 0, 0⟩
  | .exitedWithCode exit => some ⟨.exit, none, 0, exit.code⟩
  | .exited | .inferiorExited _ _ | .inferiorExitedWithCode _ _ _ | .terminated _ => none
  | .signal known frame => some ⟨.terminated, none,
      (frame.map fun frame => frame.address.value).getD 0, SignalRH.signalStatus known.name⟩
  | .noHistory frame => some ⟨.breakpoint,
      (frame.map fun frame => frame.address.value).bind breakpoints.lookupBreakpointByAddress,
      (frame.map fun frame => frame.address.value).getD 0, 0⟩

/-- The number of its breakpoint, if it has one, is an `int`. -/
def Fits : Announcement chars → Prop
  | .breakpoint num _ _ => num < 2 ^ 31
  | .source line => line.num < 2 ^ 31
  | _ => True

end Announcement

variable {chars : CharData} {breakpoints : Breakpoints}

theorem intParse_toDigits {num : Nat} (h : num < 2 ^ 31) :
    intParse (Nat.toDigits 10 num) = .ok (num : Int) := by
  have hparse : intTryParse (Nat.toDigits 10 num) = some (num : Int) := by
    rw [intTryParse, parseInteger_toDigits, Option.filter_some, if_pos]
    simp only [decide_eq_true_eq]
    omega
  rw [intParse, hparse]

/-- A line that `BreakpointRH` or `ExitRH` handles by itself. -/
theorem receiveOutput_handled {line : List Char} {stops : List GdbStop}
    (h : BreakpointRH.handleResponse chars breakpoints [line] = .ok (.handled, stops) ∨
      BreakpointRH.handleResponse chars breakpoints [line] = .ok (.notHandled, []) ∧
        ExitRH.handleResponse chars [line] = .ok (.handled, stops))
    {after : List (List Char)} (hafter : ∀ line ∈ after, Unclaimed chars line) :
    receiveOutput chars breakpoints [] (line :: after) = .ok ([], stops) := by
  have hnow : receivedNewLine chars breakpoints false ([] ++ [line]) = .ok ([], stops) := by
    rw [receivedNewLine, List.nil_append, permanentHandlings]
    rcases h with h | ⟨hbreakpoint, hexit⟩
    · rw [h]
      rfl
    · rw [hbreakpoint, hexit]
      rfl
  rw [receiveOutput, hnow, ok_bind]
  dsimp only
  rw [receiveOutput_all_unclaimed hafter, ok_bind, List.append_nil]
  rfl

theorem Awaiting.receiveOutput {line : List Char} {stop : Option UInt64 → GdbStop}
    (h : Awaiting chars breakpoints line stop) (frame : Option (FrameLine chars))
    {after : List (List Char)} (hafter : ∀ other ∈ after, Silent chars other) :
    receiveOutput chars breakpoints [] (line :: (Announcement.frameLines frame ++ after)) =
      .ok ([], [stop (frame.map fun frame => frame.address.value)]) := by
  have hfirst : receivedNewLine chars breakpoints false ([] ++ [line]) = .ok ([line], []) :=
    h false [] none (by simp) rfl
  rw [Gdb.receiveOutput, hfirst, ok_bind]
  dsimp only
  cases frame with
  | none =>
      have hsilent : ∀ other ∈ [] ++ after, Silent chars other := hafter
      have hprompt := h.prompt hsilent
      show (Gdb.receiveOutput chars breakpoints [line] after >>= _) = _
      rw [hprompt]
      rfl
  | some frame =>
      have hfound := h.found frame.unclaimed fun other hother => (hafter other hother).toUnclaimed
      show (Gdb.receiveOutput chars breakpoints [line]
        (frameText frame.address frame.place :: after) >>= _) = _
      rw [hfound]
      rfl

/-- A line that no handler claims is read, and that is all. -/
theorem receiveOutput_unreported {line : List Char} (hline : Unclaimed chars line)
    {after : List (List Char)} (hafter : ∀ other ∈ after, Unclaimed chars other) :
    receiveOutput chars breakpoints [] ([line] ++ after) = .ok ([], []) :=
  receiveOutput_all_unclaimed (List.forall_mem_cons.mpr ⟨hline, hafter⟩)

/-- An announcement makes its call of `GdbStopped`. -/
theorem receiveOutput_announcement (hchars : chars.Ascii) (breakpoints : Breakpoints)
    (announcement : Announcement chars) (hfits : announcement.Fits) {after : List (List Char)}
    (hafter : ∀ line ∈ after, Silent chars line) :
    receiveOutput chars breakpoints [] (announcement.lines ++ after) =
      .ok ([], (announcement.stop breakpoints).toList) := by
  have hunclaimed : ∀ line ∈ after, Unclaimed chars line :=
    fun line hline => (hafter line hline).toUnclaimed
  cases announcement with
  | breakpoint num address place =>
      show receiveOutput chars breakpoints [] (breakpointText num address place :: after) = _
      refine receiveOutput_handled (.inl ?_) hunclaimed
      rw [BreakpointRH.handleResponse, search_breakpointText hchars]
      have hnum : intParse (result [Nat.toDigits 10 num, address.digits] 0) = .ok (num : Int) :=
        intParse_toDigits hfits
      have haddress : uint64ParseHex (result [Nat.toDigits 10 num, address.digits] 1) =
          .ok address.value := address.parse
      dsimp only
      rw [hnum, ok_bind, Announcement.stop]
      cases breakpoints.lookupBreakpoint num with
      | none => rfl
      | some br =>
          dsimp only
          rw [haddress]
          rfl
  | source line =>
      show receiveOutput chars breakpoints []
        (sourceText line.num line.function line.args line.file :: after) = _
      refine receiveOutput_handled (.inl ?_) hunclaimed
      rw [BreakpointRH.handleResponse, line.noAddress]
      have hnum : intParse (result [Nat.toDigits 10 line.num] 0) = .ok (line.num : Int) :=
        intParse_toDigits hfits
      dsimp only
      rw [search_sourceText hchars line.num line.word]
      dsimp only
      rw [hnum, ok_bind, Announcement.stop]
      cases breakpoints.lookupBreakpoint line.num <;> rfl
  | exited => exact receiveOutput_unreported (unclaimed_exitText hchars) hunclaimed
  | inferiorExited num pid =>
      exact receiveOutput_unreported (unclaimed_inferiorExitText hchars num pid) hunclaimed
  | inferiorExitedWithCode num pid exit =>
      exact receiveOutput_unreported (unclaimed_inferiorExitCodeText hchars num pid exit) hunclaimed
  | terminated ending => exact receiveOutput_unreported ending.unclaimed hunclaimed
  | exitedWithCode exit =>
      obtain ⟨hcode, hnormal, hnone⟩ := search_exitCodeText hchars exit
      show receiveOutput chars breakpoints [] (exitCodeText exit.digits :: after) = _
      refine receiveOutput_handled (.inr ⟨breakpointRH_unclaimed (by simpa using hnone), ?_⟩)
        hunclaimed
      rw [ExitRH.handleResponse, hnormal, hcode]
      have hstatus : toInt64Octal (result [exit.digits] 0) = .ok (exit.code : Int) := exit.toInt64
      dsimp only
      rw [hstatus]
      rfl
  | signal known frame => exact (known.awaiting hchars).receiveOutput frame hafter
  | noHistory frame => exact (noHistory_awaiting hchars).receiveOutput frame hafter

end InMemoryFuzzing.Gdb

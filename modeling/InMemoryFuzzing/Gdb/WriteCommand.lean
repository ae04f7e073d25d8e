import InMemoryFuzzing.Gdb.SubProcess
import InMemoryFuzzing.Platform.Format

/-!
# Writing a command

`ProcessQueue` down to the standard input of gdb. Where nothing raises, it is `processQueue`
(`processQueueWriting_ok`). The text of the command is a format on the way, and gdb is no longer
taken to be ready when writing raises: `delivers_iff` says which commands get through.
-/

namespace InMemoryFuzzing.Gdb

open Base Platform DotNet

/-! ## `WriteLine` -/

/-- The process at the other end, its standard input, and `_gdbLog` if there is one. -/
structure Terminal where
  running : Bool
  gdbLog : Option (List Char → Except NetException Unit)
  standardInput : List Char → Except NetException Unit

namespace Terminal

def assertProcess (t : Terminal) : Except NetException Unit :=
  if !t.running then .error (.argument "Process not started") else .ok ()

def gdbLogLine (t : Terminal) (data : List Char) : Except NetException Unit :=
  match t.gdbLog with
  | some log => log (data ++ ['\n'])
  | none => .ok ()

/-- `WriteLine` of `ConsoleProcess`, and what has been written. -/
def consoleWriteLine (t : Terminal) (format : List Char) : Except NetException (List Char) := do
  t.assertProcess
  let data ← stringFormat format
  t.standardInput (data ++ ['\n'])
  return data ++ ['\n']

/-- `WriteLine` of `GDBSubProcess`. -/
def writeLine (t : Terminal) (format : List Char) : Except NetException (List Char) := do
  let data ← stringFormat format
  t.gdbLogLine data
  t.consoleWriteLine format

/-- Nothing on the way raises. -/
structure Takes (t : Terminal) (text : List Char) : Prop where
  running : t.running = true
  log : t.gdbLogLine text = .ok ()
  input : t.standardInput (text ++ ['\n']) = .ok ()

/-- What is written is the formatted text. -/
theorem writeLine_ok_iff {t : Terminal} {format line : List Char} :
    t.writeLine format = .ok line ↔
      ∃ data, stringFormat format = .ok data ∧ t.Takes data ∧ line = data ++ ['\n'] := by
  have hrunning : t.assertProcess = .ok () ↔ t.running = true := by
    cases h : t.running <;> simp [assertProcess, h]
  constructor
  · intro h
    obtain ⟨data, hdata, h⟩ := bind_ok.mp h
    obtain ⟨_, hlog, h⟩ := bind_ok.mp h
    obtain ⟨_, hassert, h⟩ := bind_ok.mp h
    rw [hdata, ok_bind] at h
    obtain ⟨_, hinput, h⟩ := bind_ok.mp h
    cases h
    exact ⟨data, hdata, ⟨hrunning.mp hassert, hlog, hinput⟩, rfl⟩
  · rintro ⟨data, hdata, htakes, rfl⟩
    simp only [writeLine, consoleWriteLine, hdata, htakes.log, hrunning.mpr htakes.running,
      htakes.input, ok_bind]
    rfl

end Terminal

/-! ## `ProcessQueue` -/

/-- `ProcessQueue`, up to `CommandFinished`: the state behind it, and what has been written or
the exception. `command` is the property `Command`. -/
def SubProcess.processQueueWriting (t : Terminal) (command : GDBCommand → List Char)
    (s : SubProcess) : SubProcess × Except NetException (List Char) :=
  match s.commands with
  | [] => (s, .ok [])
  | c :: rest =>
      if s.gdbReadyForInput then
        let s := { s with gdbReadyForInput := false }
        match t.writeLine (command c) with
        | .error e => (s, .error e)
        | .ok line =>
            let s := { s with
              commands := rest
              currentCommand := some c
              history := s.history ++ [Event.written c] }
            if c.responseHandler then (s, .ok line)
            else
              ({ s with
                frames := .finishing c :: s.frames
                history := s.history ++ [Event.finished c] }, .ok line)
      else (s, .ok [])

section

variable {t : Terminal} {command : GDBCommand → List Char} {s : SubProcess}

/-- Nothing is done without a command, or without a prompt. -/
theorem processQueueWriting_idle (h : s.commands = [] ∨ s.gdbReadyForInput = false) :
    s.processQueueWriting t command = (s, .ok []) ∧ s.processQueue = s := by
  unfold SubProcess.processQueueWriting SubProcess.processQueue
  cases hcommands : s.commands with
  | nil => simp
  | cons c rest =>
      have hbusy : s.gdbReadyForInput = false := h.resolve_left (by simp [hcommands])
      simp [hbusy]

theorem processQueueWriting_error {c : GDBCommand} {rest : List GDBCommand}
    (hcommands : s.commands = c :: rest) (hready : s.gdbReadyForInput = true) {e : NetException}
    (hline : t.writeLine (command c) = .error e) :
    s.processQueueWriting t command = ({ s with gdbReadyForInput := false }, .error e) := by
  simp [SubProcess.processQueueWriting, hcommands, hready, hline]

theorem processQueueWriting_line {c : GDBCommand} {rest : List GDBCommand}
    (hcommands : s.commands = c :: rest) (hready : s.gdbReadyForInput = true) {line : List Char}
    (hline : t.writeLine (command c) = .ok line) :
    s.processQueueWriting t command = (s.processQueue, .ok line) := by
  cases hhandler : c.responseHandler with
  | true =>
      simp [SubProcess.processQueueWriting, SubProcess.processQueue, hcommands, hready, hline,
        hhandler]
  | false =>
      simp [SubProcess.processQueueWriting, SubProcess.processQueue, hcommands, hready, hline,
        hhandler]

/-- All that a call can do. -/
theorem processQueueWriting_cases (t : Terminal) (command : GDBCommand → List Char)
    (s : SubProcess) :
    (s.commands = [] ∨ s.gdbReadyForInput = false) ∨
    ∃ c rest, s.commands = c :: rest ∧ s.gdbReadyForInput = true ∧
      ((∃ e, t.writeLine (command c) = .error e ∧
          s.processQueueWriting t command = ({ s with gdbReadyForInput := false }, .error e)) ∨
        ∃ line, t.writeLine (command c) = .ok line ∧
          s.processQueueWriting t command = (s.processQueue, .ok line)) := by
  by_cases hidle : s.commands = [] ∨ s.gdbReadyForInput = false
  · exact .inl hidle
  · obtain ⟨hne, hready⟩ := not_or.mp hidle
    rw [Bool.not_eq_false] at hready
    obtain ⟨c, rest, hcommands⟩ := List.exists_cons_of_ne_nil hne
    refine .inr ⟨c, rest, hcommands, hready, ?_⟩
    cases hline : t.writeLine (command c) with
    | error e => exact .inl ⟨e, rfl, processQueueWriting_error hcommands hready hline⟩
    | ok line => exact .inr ⟨line, rfl, processQueueWriting_line hcommands hready hline⟩

/-- Where nothing raises it is the `processQueue` of the sub process. -/
theorem processQueueWriting_ok {line : List Char}
    (h : (s.processQueueWriting t command).2 = .ok line) :
    (s.processQueueWriting t command).1 = s.processQueue := by
  rcases processQueueWriting_cases t command s with
    hidle | ⟨c, rest, -, -, ⟨e, -, heq⟩ | ⟨line, -, heq⟩⟩
  · obtain ⟨heq, hsame⟩ := processQueueWriting_idle (t := t) (s := s) hidle
    rw [heq, hsame]
  · rw [heq] at h
    cases h
  · rw [heq]

/-- Behind a failed write no call writes anything, until the next prompt. -/
theorem processQueueWriting_stalls {e : NetException}
    (h : (s.processQueueWriting t command).2 = .error e) (t' : Terminal) :
    let s' := (s.processQueueWriting t command).1
    s'.processQueueWriting t' command = (s', .ok []) := by
  refine (processQueueWriting_idle (.inr ?_)).1
  rcases processQueueWriting_cases t command s with
    hidle | ⟨c, rest, -, -, ⟨e, -, heq⟩ | ⟨line, -, heq⟩⟩
  · rw [(processQueueWriting_idle hidle).1] at h
    cases h
  · rw [heq]
  · rw [heq] at h
    cases h

end

/-! ## What gets through -/

/-- With gdb ready the first command is written as it is, and if writing raises, nothing has
changed. -/
structure Delivers (t : Terminal) (command : GDBCommand → List Char) (s : SubProcess) : Prop where
  verbatim : ∀ c rest line, s.commands = c :: rest → s.gdbReadyForInput = true →
    (s.processQueueWriting t command).2 = .ok line → line = command c ++ ['\n']
  unchanged : ∀ e, (s.processQueueWriting t command).2 = .error e →
    (s.processQueueWriting t command).1.gdbReadyForInput = s.gdbReadyForInput ∧
    (s.processQueueWriting t command).1.commands = s.commands ∧
    (s.processQueueWriting t command).1.currentCommand = s.currentCommand

/-- If and only if the command has no braces and nothing on the way raises. -/
theorem delivers_iff (t : Terminal) (command : GDBCommand → List Char) (s : SubProcess) :
    Delivers t command s ↔
      ∀ c rest, s.commands = c :: rest → s.gdbReadyForInput = true →
        Plain (command c) ∧ t.Takes (command c) := by
  constructor
  · intro h c rest hcommands hready
    cases hline : t.writeLine (command c) with
    | error e =>
        -- gdb is not ready any more
        have herror := processQueueWriting_error hcommands hready hline
        have hsame := (h.unchanged e (congrArg Prod.snd herror)).1
        rw [herror, hready] at hsame
        cases hsame
    | ok line =>
        have hwritten := processQueueWriting_line hcommands hready hline
        have hsame := h.verbatim c rest line hcommands hready (congrArg Prod.snd hwritten)
        obtain ⟨data, hdata, htakes, hdataline⟩ := Terminal.writeLine_ok_iff.mp hline
        have htext : data = command c := List.append_cancel_right (hdataline.symm.trans hsame)
        rw [htext] at hdata htakes
        exact ⟨stringFormat_eq_self_iff.mp hdata, htakes⟩
  · intro h
    have hwrites : ∀ c rest, s.commands = c :: rest → s.gdbReadyForInput = true →
        t.writeLine (command c) = .ok (command c ++ ['\n']) := by
      intro c rest hcommands hready
      obtain ⟨hplain, htakes⟩ := h c rest hcommands hready
      exact Terminal.writeLine_ok_iff.mpr ⟨command c, hplain.stringFormat, htakes, rfl⟩
    constructor
    · intro c rest line hcommands hready hok
      rw [processQueueWriting_line hcommands hready (hwrites c rest hcommands hready)] at hok
      cases hok
      rfl
    · intro e herror
      rcases processQueueWriting_cases t command s with
        hidle | ⟨c, rest, hcommands, hready, ⟨e', hline, -⟩ | ⟨line, -, heq⟩⟩
      · rw [(processQueueWriting_idle hidle).1] at herror
        cases herror
      · rw [hwrites c rest hcommands hready] at hline
        cases hline
      · rw [heq] at herror
        cases herror

/-- A memory cell is to be printed, and gdb is ready: the command stays in the queue and gdb is
not ready. -/
theorem braces_not_delivered :
    let t : Terminal := ⟨true, none, fun _ => .ok ()⟩
    let command : GDBCommand → List Char := fun _ => "print {int}0x1000".toList
    let s : SubProcess := { SubProcess.initial with commands := [⟨0, true⟩], gdbReadyForInput := true }
    (s.processQueueWriting t command).2 = .error .format ∧
      (s.processQueueWriting t command).1 = { s with gdbReadyForInput := false } ∧
      ¬Delivers t command s := by
  intro t command s
  have hraise : t.writeLine (command ⟨0, true⟩) = .error .format := rfl
  have herror : s.processQueueWriting t command = ({ s with gdbReadyForInput := false }, .error .format) :=
    processQueueWriting_error rfl rfl hraise
  refine ⟨congrArg Prod.snd herror, congrArg Prod.fst herror, fun h => ?_⟩
  have hready := (h.unchanged _ (congrArg Prod.snd herror)).1
  rw [herror] at hready
  cases hready

end InMemoryFuzzing.Gdb

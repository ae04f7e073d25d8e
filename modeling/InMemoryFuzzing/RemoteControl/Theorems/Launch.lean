import InMemoryFuzzing.RemoteControl.LaunchLogic
import InMemoryFuzzing.RemoteControl.Theorems.RemoteNet
import InMemoryFuzzing.Utils.Theorems.Format

/-!
# What launching the programs guarantees

`launch_in_order` — a program is asked for only after the server has started all
those in front of it, and the loop ends at the first one it could not start, with
its error code. `remote_pid_expanded` — a reference to a process is replaced by
the id of the first process whose command contains the text.
-/

namespace InMemoryFuzzing.RemoteControl

open Base Platform DotNet Utils SimpleFormatter

/-! ## The texts of a command -/

/-- A part of a text: it stands as it is, or it is the id of a process. -/
inductive CommandPart
  | literal (text : List Char)
  | remotePid (searchString : List Char)
  deriving DecidableEq, Repr

namespace CommandPart

/-- The part as it stands in the configuration. -/
def piece : CommandPart → FormatPiece
  | .literal text => .literal text
  | .remotePid searchString => .packet (macroPart ("remote-pid".toList ++ '|' :: searchString))

/-- A literal without start markers and backslashes, or a text to search for: not
empty, not with `|` in front, and without colons and end markers. -/
def Plain : CommandPart → Prop
  | .literal text => '{' ∉ text ∧ '\\' ∉ text
  | .remotePid searchString => searchString ≠ [] ∧ searchString.head? ≠ some '|' ∧
      ':' ∉ searchString ∧ '}' ∉ searchString

/-- A part refers to a process. -/
def isReference : CommandPart → Bool
  | .literal _ => false
  | .remotePid _ => true

theorem Plain.piece {part : CommandPart} (h : part.Plain) : part.piece.Plain := by
  cases part with
  | literal text => exact h
  | remotePid searchString =>
      refine ⟨?_, ?_⟩
      · intro hmem
        exact h.2.2.2 (by simpa [macroPart] using hmem)
      · rw [macroPart, ← List.cons_append, List.getLast?_append]
        simp

end CommandPart

/-- The first process whose command contains the text. -/
def FirstMatch (processes : List RemoteProcessInfo) (searchString : List Char)
    (procInfo : RemoteProcessInfo) : Prop :=
  ∃ front back, processes = front ++ procInfo :: back ∧
    (∃ command, procInfo.command = some command ∧ searchString <:+: command.toList) ∧
    ∀ other ∈ front, ∃ command, other.command = some command ∧ ¬searchString <:+: command.toList

/-- What a part stands for. -/
def CommandPart.Denotes (processes : List RemoteProcessInfo) :
    CommandPart → List Char → Prop
  | .literal text, result => result = text
  | .remotePid searchString, result =>
      ∃ procInfo, FirstMatch processes searchString procInfo ∧ result = CLib.formatD procInfo.pid

theorem findProcess_ok_iff {searchString : List Char} {processes : List RemoteProcessInfo}
    {procInfo : RemoteProcessInfo} :
    findProcess searchString processes = .ok procInfo ↔
      FirstMatch processes searchString procInfo := by
  induction processes with
  | nil =>
      constructor
      · intro h
        cases h
      · rintro ⟨front, back, h, -⟩
        simp at h
  | cons first rest ih =>
      constructor
      · intro h
        rw [findProcess] at h
        cases hcommand : first.command with
        | none =>
            rw [hcommand] at h
            cases h
        | some command =>
            simp only [hcommand] at h
            split at h
            · rename_i hcontains
              cases h
              exact ⟨[], rest, rfl, ⟨command, hcommand, hcontains⟩, by simp⟩
            · rename_i hother
              obtain ⟨front, back, rfl, hmatch, hfront⟩ := ih.mp h
              refine ⟨first :: front, back, rfl, hmatch, ?_⟩
              rw [List.forall_mem_cons]
              exact ⟨⟨command, hcommand, hother⟩, hfront⟩
      · rintro ⟨front, back, heq, ⟨command, hcommand, hcontains⟩, hfront⟩
        rw [findProcess]
        cases front with
        | nil =>
            cases heq
            simp only [hcommand, hcontains, if_true]
        | cons other front =>
            cases heq
            rw [List.forall_mem_cons] at hfront
            obtain ⟨⟨command', hcommand', hother⟩, hfront⟩ := hfront
            simp only [hcommand', hother, if_false]
            exact ih.mpr ⟨front, back, rfl, ⟨command, hcommand, hcontains⟩, hfront⟩

/-- The key and the text behind it. -/
theorem split_remotePid {searchString : List Char}
    (h : (CommandPart.remotePid searchString).Plain) :
    splitToKeyValue ("remote-pid".toList ++ '|' :: searchString) '|' =
      some ("remote-pid".toList, searchString) := by
  obtain ⟨hne, hfirst, -, -⟩ := h
  have hkey : (("remote-pid".toList ++ '|' :: searchString).dropWhile fun c => c == '|') =
      "remote-pid".toList ++ '|' :: searchString := rfl
  have hvalue : (searchString.dropWhile fun c => c == '|') = searchString := by
    cases searchString with
    | nil => rfl
    | cons c rest =>
        have hc : c ≠ '|' := by simpa using hfirst
        rw [List.dropWhile_cons_of_neg (by simpa using hc)]
  have hcut : cutAt '|' ("remote-pid".toList ++ '|' :: searchString) =
      some ("remote-pid".toList, searchString) := cutAt_append (by simp) _
  rw [splitToKeyValue, hkey, hcut]
  simp only [hvalue, List.isEmpty_iff, hne, if_false]

theorem remoteParameter_reference {searchString : List Char}
    (h : (CommandPart.remotePid searchString).Plain)
    (processes : Option (List RemoteProcessInfo)) :
    remoteParameter processes ("remote-pid".toList ++ '|' :: searchString) =
      match processes with
      | none => .error .tableNeeded
      | some processes =>
          (findProcess searchString processes).map fun procInfo =>
            some (CLib.formatD procInfo.pid) := by
  rw [remoteParameter, split_remotePid h]
  cases processes <;> rfl

/-- A number is inserted as it stands. -/
theorem unescape_formatD {ε : Type} (value : Int) :
    (unescape (CLib.formatD value) : Except (Raised ε) _) = .ok (CLib.formatD value) := by
  have hdigits : '\\' ∉ Nat.toDigits 10 value.natAbs :=
    not_mem_toDigits (by norm_num) (by norm_num) rfl
  have hslash : '\\' ∉ CLib.formatD value := by
    rw [CLib.formatD]
    split <;> simp [hdigits]
  have hne : CLib.formatD value ≠ [] := by
    rw [CLib.formatD]
    split
    · exact List.cons_ne_nil _ _
    · exact Nat.toDigits_ne_nil
  exact unescape_eq_self_iff.mpr
    ⟨hne, fun i hi => absurd (List.mem_of_getElem? hi) hslash⟩

/-- The delegate is asked for every macro. -/
theorem lookup_variable {ε : Type} (cb : List Char → Except ε Parameter) (name : List Char) :
    (variableFormatter cb).lookup (macroPart name) [] =
      match cb name with
      | .error e => .error (.parameter e)
      | .ok value => .ok (some (stringifyParameter value)) := by
  rw [lookup_macroPart]
  rfl

/-- A reference is replaced by the id, or raises what the search raises. -/
theorem expandPiece_reference {searchString : List Char}
    (h : (CommandPart.remotePid searchString).Plain)
    (processes : Option (List RemoteProcessInfo)) :
    (variableFormatter (remoteParameter processes)).expandPiece []
        (CommandPart.remotePid searchString).piece =
      match processes with
      | none => .error (.parameter .tableNeeded)
      | some processes =>
          match findProcess searchString processes with
          | .ok procInfo => .ok (CLib.formatD procInfo.pid)
          | .error e => .error (.parameter e) := by
  have hcolon : ':' ∉ macroPart ("remote-pid".toList ++ '|' :: searchString) := by
    intro hmem
    exact h.2.2.1 (by simpa [macroPart] using hmem)
  have hsplit : (escapeSafeSplit (macroPart ("remote-pid".toList ++ '|' :: searchString)) ':' :
      Except (Raised LaunchRaised) _) = .ok [_] := escapeSafeSplit_of_not_mem hcolon
  have hlookup := lookup_variable (remoteParameter processes)
    ("remote-pid".toList ++ '|' :: searchString)
  rw [remoteParameter_reference h] at hlookup
  rw [CommandPart.piece, expandPiece]
  cases processes with
  | none =>
      rw [formatPacket_raises hsplit hlookup]
      rfl
  | some processes =>
      cases hfound : findProcess searchString processes with
      | error e =>
          simp only [hfound] at hlookup ⊢
          rw [formatPacket_raises hsplit hlookup]
          rfl
      | ok procInfo =>
          simp only [hfound] at hlookup ⊢
          rw [formatPacket_of_lookup hsplit hlookup]
          show caught _ (unescape (CLib.formatD procInfo.pid) >>= _) = _
          rw [unescape_formatD]
          rfl

/-- A text is expanded part by part. -/
theorem expandText_parts (processes : Option (List RemoteProcessInfo)) {parts : List CommandPart}
    (hparts : ∀ part ∈ parts, part.Plain) :
    expandText processes (String.ofList (textOf (parts.map CommandPart.piece))) =
      (collect (fun part => (variableFormatter (remoteParameter processes)).expandPiece []
        (CommandPart.piece part)) parts).map String.ofList := by
  have hpieces : ∀ piece ∈ parts.map CommandPart.piece, piece.Plain := by
    intro piece hpiece
    obtain ⟨part, hpart, rfl⟩ := List.mem_map.mp hpiece
    exact (hparts part hpart).piece
  have hformats := format_pieces (variableFormatter (remoteParameter processes)) [] hpieces
  have hsame := (formatText_formats (f := variableFormatter (remoteParameter processes)) rfl
    _ []).unique hformats
  rw [expandText, String.toList_ofList, hsame, SimpleFormatter.expand, collect_map]

theorem collect_without_table {parts : List CommandPart} (hparts : ∀ part ∈ parts, part.Plain) :
    collect (fun part => (variableFormatter (remoteParameter none)).expandPiece []
        (CommandPart.piece part)) parts =
      if parts.any CommandPart.isReference then .error (.parameter .tableNeeded)
      else .ok (textOf (parts.map CommandPart.piece)) := by
  induction parts with
  | nil => rfl
  | cons part parts ih =>
      rw [List.forall_mem_cons] at hparts
      rw [collect, List.any_cons, List.map_cons, ih hparts.2]
      cases part with
      | remotePid searchString =>
          rw [expandPiece_reference hparts.1]
          rfl
      | literal text =>
          rw [CommandPart.isReference, Bool.false_or, CommandPart.piece, expandPiece, ok_bind]
          split <;> rfl

/-- With the process table, a text is expanded if every reference has a first process
whose command contains the text, and every reference is replaced by its id. Without
the table nothing is expanded but a text without references, and the first reference
asks for the table. -/
theorem remote_pid_expanded (processes : List RemoteProcessInfo) (parts : List CommandPart)
    (hparts : ∀ part ∈ parts, part.Plain) (result : String) :
    (expandText (some processes) (String.ofList (textOf (parts.map CommandPart.piece))) =
        .ok result ↔
      ∃ texts, List.Forall₂ (CommandPart.Denotes processes) parts texts ∧
        result.toList = texts.flatten) ∧
    expandText none (String.ofList (textOf (parts.map CommandPart.piece))) =
      if parts.any CommandPart.isReference then .error (.parameter .tableNeeded)
      else .ok (String.ofList (textOf (parts.map CommandPart.piece))) := by
  refine ⟨?_, ?_⟩
  · have hpart : ∀ part ∈ parts, ∀ text,
        (variableFormatter (remoteParameter (some processes))).expandPiece [] part.piece =
          .ok text ↔ CommandPart.Denotes processes part text := by
      intro part hmem text
      cases part with
      | literal literal =>
          rw [CommandPart.piece, expandPiece, Except.ok.injEq]
          exact eq_comm
      | remotePid searchString =>
          rw [expandPiece_reference (hparts _ hmem)]
          simp only [CommandPart.Denotes, ← findProcess_ok_iff]
          cases findProcess searchString processes with
          | error e => simp
          | ok procInfo => simp [eq_comm]
    rw [expandText_parts _ hparts, map_ok_iff]
    constructor
    · rintro ⟨text, htext, rfl⟩
      obtain ⟨texts, htexts, rfl⟩ := collect_ok_iff.mp htext
      exact ⟨texts, (forall₂_congr_mem hpart).mp htexts, String.toList_ofList⟩
    · rintro ⟨texts, htexts, hresult⟩
      refine ⟨result.toList, ?_, String.ofList_toList⟩
      exact collect_ok_iff.mpr ⟨texts, (forall₂_congr_mem hpart).mpr htexts, hresult⟩
  · rw [expandText_parts _ hparts, collect_without_table hparts]
    split <;> rfl

/-- A debugger for a server whose id is in the table. -/
theorem remote_pid_expanded_attach :
    expandText (some [⟨some "/bin/sh", 1⟩, ⟨some "/srv/victim", 42⟩])
      "--attach {[remote-pid|victim]}" = .ok "--attach 42" := by
  have hparts : ∀ part ∈ [CommandPart.literal "--attach ".toList, .remotePid "victim".toList],
      part.Plain := by
    simp [CommandPart.Plain]
  have hmatch : FirstMatch [⟨some "/bin/sh", 1⟩, ⟨some "/srv/victim", 42⟩] "victim".toList
      ⟨some "/srv/victim", 42⟩ :=
    findProcess_ok_iff.mp (by rfl)
  refine (remote_pid_expanded [⟨some "/bin/sh", 1⟩, ⟨some "/srv/victim", 42⟩]
    [.literal "--attach ".toList, .remotePid "victim".toList] hparts "--attach 42").1.mpr
    ⟨["--attach ".toList, CLib.formatD 42], ?_, rfl⟩
  exact .cons rfl (.cons ⟨_, hmatch, rfl⟩ .nil)

/-! ## The launches -/

theorem handled_spawns (handled : List (RemoteCommand × HandlerWorld)) :
    (handled.flatMap fun d => d.1.spawns) =
      ((handled.map Prod.fst).filterMap RemoteCommand.program?).map RemoteExecCommand.spawnCall := by
  induction handled with
  | nil => rfl
  | cons d rest ih =>
      obtain ⟨c, world⟩ := d
      rw [List.flatMap_cons, ih]
      cases c <;> rfl

/-- Along every interleaving of `RemoteExec` with the thread that reads, the server
and the pipes, where what is sent and the process tables fit: what was sent are the commands in
order, with their texts expanded, without a table or with one of those the server has answered
with; what was started is a front part of that; all programs the loop has left behind were
started by a `posix_spawn` that returned 0, and at most one more was asked for. The
loop is at its end when all were started, and an error code it raises is the result
of the first `posix_spawn` that failed. -/
theorem launch_in_order (n0 : Int) (commands : List RemoteExecCommand) (s : Launcher)
    (hs : (launchSystem n0 commands).ReachableBy LaunchOk s) :
    (∃ tables, tables <+: (s.net.issued.zip s.net.worlds).flatMap (fun d => d.1.tables d.2) ∧
        List.Forall₂ (SentAs tables) (commands.take s.net.programs.length) s.net.programs) ∧
      s.net.server.spawned <+: s.net.programs.map RemoteExecCommand.spawnCall ∧
      s.passed ≤ s.net.programs.length ∧ s.net.programs.length ≤ s.passed + 1 ∧
      (∃ results, results <+: (s.net.issued.zip s.net.worlds).flatMap
          (fun d => d.1.statuses d.2) ∧
        results.length = s.passed ∧ ∀ status ∈ results, status.status = 0) ∧
      (s.phase = .finished → s.passed = commands.length ∧
        s.net.programs.length = commands.length) ∧
      ∀ code, s.phase = .raised (.errorCode code) →
        ∃ status, ((s.net.issued.zip s.net.worlds).flatMap
            (fun d => d.1.statuses d.2))[s.passed]? = some status ∧
          status.status = code ∧ code ≠ 0 := by
  obtain ⟨hreach, h⟩ := launchInv_of_reachable hs
  obtain ⟨hinv, session, hclient⟩ := remoteInv_of_reachable hreach
  have hphase := h.phase
  have hsplit : s.started ++ s.todo = commands := h.split
  have hpassed : s.passed ≤ s.net.execEvents.length := h.passed_le
  have hanswered : s.net.execEvents <+: s.net.handled.flatMap fun d => d.1.statuses d.2 := by
    rw [(events_eq hreach).1, ← hinv.statuses, List.flatMap_append]
    exact List.prefix_append _ _
  -- how many programs were asked for, by the place the loop is at
  have hcount : s.net.programs.length ≤ s.passed + 1 ∧
      s.net.programs.length ≤ s.started.length := by
    generalize s.phase = phase at hphase
    cases phase with
    | next =>
        obtain ⟨hstarted, hprograms, -, -⟩ := hphase
        exact ⟨hprograms.le.trans (Nat.le_succ _), (hprograms.trans hstarted.symm).le⟩
    | expanding =>
        obtain ⟨hstarted, hprograms, -, -, -⟩ := hphase
        exact ⟨hprograms.le.trans (Nat.le_succ _),
          hprograms.le.trans (hstarted.symm ▸ Nat.le_succ _)⟩
    | awaitTable =>
        obtain ⟨hstarted, hprograms, -, -, -⟩ := hphase
        exact ⟨hprograms.le.trans (Nat.le_succ _),
          hprograms.le.trans (hstarted.symm ▸ Nat.le_succ _)⟩
    | waiting =>
        obtain ⟨hstarted, hprograms, -⟩ := hphase
        exact ⟨hprograms.le, (hprograms.trans hstarted.symm).le⟩
    | finished =>
        obtain ⟨⟨hstarted, hprograms, -, -⟩, -⟩ := hphase
        exact ⟨hprograms.le.trans (Nat.le_succ _), (hprograms.trans hstarted.symm).le⟩
    | raised failure =>
        cases failure with
        | format e =>
            exact ⟨hphase.2.le.trans (Nat.le_succ _),
              hphase.2.le.trans (hphase.1.symm ▸ Nat.le_succ _)⟩
        | timeout => exact ⟨hphase.2.le, (hphase.2.trans hphase.1.symm).le⟩
        | errorCode code => exact ⟨hphase.2.1.le, (hphase.2.1.trans hphase.1.symm).le⟩
  refine ⟨?_, ?_, hpassed.trans (events_length_le hreach), hcount.1, ?_, ?_, ?_⟩
  · refine ⟨s.net.tableEvents, ?_, ?_⟩
    · rw [(events_eq hreach).2]
      show _ <+: s.net.handled.flatMap fun d => d.1.tables d.2
      rw [← hinv.tables, List.flatMap_append]
      exact List.prefix_append _ _
    · rw [← hsplit, List.take_append_of_le_length hcount.2]
      exact h.sent
  · rw [hinv.spawned, handled_spawns]
    exact ((prefix_zip_fst _ _).filterMap RemoteCommand.program?).map _
  · refine ⟨s.net.execEvents.take s.passed, (List.take_prefix _ _).trans hanswered, ?_, h.won⟩
    rw [List.length_take, Nat.min_eq_left hpassed]
  · intro hfinished
    rw [hfinished] at hphase
    obtain ⟨⟨hstarted, hprograms, -, -⟩, htodo⟩ := hphase
    have hall : s.started = commands := by
      rw [← hsplit, show s.todo = [] from htodo, List.append_nil]
    rw [← hall]
    exact ⟨hstarted.symm, hprograms.trans hstarted.symm⟩
  · intro code hraised
    rw [hraised] at hphase
    obtain ⟨-, -, status, hget, hcode⟩ := hphase
    refine ⟨status, ?_, hcode⟩
    obtain ⟨later, hlater⟩ := hanswered
    change s.net.execEvents[s.passed]? = some status at hget
    rw [show (s.net.issued.zip s.net.worlds).flatMap (fun d => d.1.statuses d.2) =
        s.net.execEvents ++ later from hlater.symm,
      List.getElem?_append_left (List.getElem?_eq_some_iff.mp hget).1, hget]

/-- A text without references. -/
theorem expandText_literal (processes : Option (List RemoteProcessInfo)) {text : String}
    (h : (CommandPart.literal text.toList).Plain) : expandText processes text = .ok text := by
  have hparts : ∀ part ∈ [CommandPart.literal text.toList], part.Plain := by simpa using h
  have hexpand := expandText_parts processes hparts
  simp only [List.map_cons, List.map_nil, CommandPart.piece, textOf, FormatPiece.text,
    List.flatMap_cons, List.flatMap_nil, List.append_nil, String.ofList_toList] at hexpand
  rw [hexpand, collect, collect, expandPiece, ok_bind, ok_bind]
  show Except.ok (String.ofList (text.toList ++ [])) = _
  rw [List.append_nil, String.ofList_toList]

/-- The program is started, and its status sets the event. -/
def launchLs : List LaunchAct :=
  [.net (.processPacket calmWorld), .net .receive, .callback, .callback, .callback, .callback,
    .wake, .next]

theorem launch_in_order_ls :
    ∃ s, (launchSystem 0 [listTmp]).exec (.start 0 [listTmp]) (.next :: .expand :: launchLs) =
        some s ∧ s.phase = .finished ∧ s.net.programs.length = 1 := by
  have hexpand : expandCommand none listTmp = .ok listTmp := by
    have hpath : expandText none "/bin/ls" = .ok "/bin/ls" :=
      expandText_literal none (by simp [CommandPart.Plain])
    have harg : expandText none "/tmp" = .ok "/tmp" :=
      expandText_literal none (by simp [CommandPart.Plain])
    rw [expandCommand]
    simp only [listTmp, hpath, harg, List.mapM_cons, List.mapM_nil, ok_bind]
    rfl
  obtain ⟨s₁, hs₁, hphase, hcurrent, hprocesses⟩ : ∃ s₁,
      (launchSystem 0 [listTmp]).step (.start 0 [listTmp]) .next = some s₁ ∧
      s₁.phase = .expanding ∧ s₁.current = some (.new listTmp) ∧ s₁.processes = none :=
    ⟨_, rfl, rfl, rfl, rfl⟩
  have hsend : (launchSystem 0 [listTmp]).step s₁ .expand =
      (s₁.net.step (.sendCommand (.exec listTmp))).map fun net =>
        { s₁ with net, phase := .waiting } := by
    simp only [launchSystem, Launcher.step, hphase, hcurrent, hprocesses, RemoteExecutionInfo.new,
      hexpand]
  obtain ⟨s, s₂, hs₂, hs, hfinished⟩ : ∃ s s₂,
      (s₁.net.step (.sendCommand (.exec listTmp))).map (fun net =>
        { s₁ with net, phase := .waiting }) = some s₂ ∧
      (launchSystem 0 [listTmp]).exec s₂ launchLs = some s ∧ s.phase = .finished := by
    cases hs₁
    exact ⟨_, _, rfl, rfl, rfl⟩
  have hfirst : (launchSystem 0 [listTmp]).ReachableBy LaunchOk s₁ :=
    .step (.init rfl) (show LaunchOk _ .next from trivial) hs₁
  have hsecond : (launchSystem 0 [listTmp]).ReachableBy LaunchOk s₂ := by
    refine .step hfirst ?_ (hsend.trans hs₂)
    intro info sent hinfo hsent
    rw [hcurrent] at hinfo
    cases hinfo
    rw [hprocesses] at hsent
    cases hsent.symm.trans hexpand
    exact listTmp_fits
  have hok : ∀ a ∈ launchLs, ∀ s, LaunchOk s a := by
    simp [launchLs, LaunchOk, TameStep, calmWorld_tame]
  obtain ⟨-, -, -, -, -, hall, -⟩ :=
    launch_in_order 0 [listTmp] s (TSys.ReachableBy.exec _ hsecond hok hs)
  refine ⟨s, ?_, hfinished, (hall hfinished).2⟩
  show ((launchSystem 0 [listTmp]).step _ _).bind _ = _
  rw [hs₁]
  show ((launchSystem 0 [listTmp]).step s₁ _).bind _ = _
  rw [hsend, hs₂]
  exact hs

end InMemoryFuzzing.RemoteControl

import InMemoryFuzzing.RemoteControl.Launch
import InMemoryFuzzing.RemoteControl.RemoteLogic
import Mathlib.Data.List.Forall2

/-!
# Why a launch waits for its own program

At most one program is under way: its status is the next one that arrives, and
the handler has assigned all of it before it sets the event. `LaunchInv` says so
for every place `RemoteExec` can be at; `netStep` and the lemmas behind it take it
along each of the steps.
-/

namespace InMemoryFuzzing.RemoteControl

open Base Platform DotNet Utils

/-! ## The connection below -/

/-- The program of an EXEC command. -/
def RemoteCommand.program? : RemoteCommand → Option RemoteExecCommand
  | .exec cmd => some cmd
  | _ => none

/-- The programs asked for so far. -/
def RemoteNet.programs (s : RemoteNet) : List RemoteExecCommand :=
  s.issued.filterMap RemoteCommand.program?

variable {n0 : Int} {net net' : RemoteNet}

theorem remoteInv_of_reachable (h : (remoteSystem n0).ReachableBy TameStep net) :
    RemoteInv net ∧ ∃ session, net.client = .ok session := by
  obtain ⟨t, -, hinv, hview⟩ := (remote_simulation n0).reachable h
  obtain ⟨session, hclient, -⟩ := hview.client
  exact ⟨hinv, session, hclient⟩

theorem events_eq (h : (remoteSystem n0).ReachableBy TameStep net) :
    net.execEvents = net.received.flatMap Outgoing.statuses ∧
      net.tableEvents = net.received.flatMap Outgoing.tables := by
  obtain ⟨hinv, session, hclient⟩ := remoteInv_of_reachable h
  obtain ⟨hstatus, htables⟩ := hinv.client session hclient
  rw [RemoteNet.execEvents, RemoteNet.tableEvents, hclient]
  exact ⟨hstatus, htables⟩

theorem prefix_zip_fst {α β : Type*} (l : List α) (m : List β) : (l.zip m).map Prod.fst <+: l := by
  induction l generalizing m with
  | nil => exact List.nil_prefix
  | cons a l ih =>
      cases m with
      | nil => exact List.nil_prefix
      | cons b m => exact (List.prefix_cons_inj a).mpr (ih m)

theorem statuses_names (handled : List (RemoteCommand × HandlerWorld)) :
    (handled.flatMap fun d => d.1.statuses d.2).map ExecStatus.name =
      ((handled.map Prod.fst).filterMap RemoteCommand.program?).map RemoteExecCommand.name := by
  induction handled with
  | nil => rfl
  | cons d rest ih =>
      obtain ⟨c, world⟩ := d
      rw [List.flatMap_cons, List.map_append, ih]
      cases c <;> rfl

/-- The events carry the names of the programs, in order. -/
theorem events_names (h : (remoteSystem n0).ReachableBy TameStep net) :
    net.execEvents.map ExecStatus.name <+: net.programs.map RemoteExecCommand.name := by
  obtain ⟨hinv, -⟩ := remoteInv_of_reachable h
  have hhandled : net.handled.map Prod.fst <+: net.issued := prefix_zip_fst _ _
  have hanswered : net.execEvents <+: net.handled.flatMap fun d => d.1.statuses d.2 := by
    rw [(events_eq h).1, ← hinv.statuses, List.flatMap_append]
    exact List.prefix_append _ _
  refine (hanswered.map ExecStatus.name).trans ?_
  rw [statuses_names]
  exact (hhandled.filterMap RemoteCommand.program?).map RemoteExecCommand.name

theorem events_length_le (h : (remoteSystem n0).ReachableBy TameStep net) :
    net.execEvents.length ≤ net.programs.length := by
  have hlen := (events_names h).length_le
  rwa [List.length_map, List.length_map] at hlen

/-- What a step that sends no command does to the programs and to the packets
received. -/
theorem netStep_frame {act : RemoteAct} (hact : ∀ c, act ≠ .sendCommand c)
    (hstep : net.step act = some net') :
    net'.programs = net.programs ∧ (net'.received = net.received ∨
      act = .receive ∧ ∃ f, net'.received = net.received ++ [f]) := by
  have hserved : ∀ {r : Option (RemoteServer × List Outgoing)}, r.map net.served = some net' →
      net'.programs = net.programs ∧ net'.received = net.received := by
    intro r hr
    obtain ⟨result, -, rfl⟩ := Option.map_eq_some_iff.mp hr
    exact ⟨rfl, rfl⟩
  cases act with
  | sendCommand c => exact absurd rfl (hact c)
  | requestPipe pipeName =>
      simp only [RemoteNet.step] at hstep
      split at hstep
      · cases hstep
        exact ⟨by simp [RemoteNet.programs, RemoteCommand.program?], .inl rfl⟩
      · cases hstep
  | sendRequest =>
      simp only [RemoteNet.step] at hstep
      split at hstep
      · cases hstep
        exact ⟨rfl, .inl rfl⟩
      · cases hstep
  | processPacket world =>
      simp only [RemoteNet.step] at hstep
      split at hstep
      · obtain ⟨result, -, rfl⟩ := Option.map_eq_some_iff.mp hstep
        exact ⟨rfl, .inl rfl⟩
      · cases hstep
  | startThread =>
      obtain ⟨hprograms, hreceived⟩ := hserved hstep
      exact ⟨hprograms, .inl hreceived⟩
  | thread k act =>
      obtain ⟨hprograms, hreceived⟩ := hserved hstep
      exact ⟨hprograms, .inl hreceived⟩
  | receive =>
      simp only [RemoteNet.step] at hstep
      split at hstep
      · cases hstep
        exact ⟨rfl, .inr ⟨rfl, _, rfl⟩⟩
      · cases hstep

/-- A step raises at most one status event; only the thread that reads does. -/
theorem netStep_events (h : (remoteSystem n0).ReachableBy TameStep net)
    (h' : (remoteSystem n0).ReachableBy TameStep net') {act : RemoteAct}
    (hact : ∀ c, act ≠ .sendCommand c) (hstep : net.step act = some net') :
    net'.execEvents = net.execEvents ∨
      act = .receive ∧ ∃ status, net'.execEvents = net.execEvents ++ [status] := by
  rw [(events_eq h).1, (events_eq h').1]
  rcases (netStep_frame hact hstep).2 with hreceived | ⟨rfl, f, hreceived⟩
  · exact .inl (by rw [hreceived])
  · rw [hreceived, List.flatMap_append, List.flatMap_singleton]
    cases hf : f.statuses with
    | nil => exact .inl (List.append_nil _)
    | cons status rest =>
        have hnil : rest = [] := by
          cases f with
          | status p =>
              simp only [Outgoing.statuses] at hf
              cases hanswer : (handlerExecStatus p.data).toOption with
              | none =>
                  rw [hanswer] at hf
                  cases hf
              | some _ =>
                  rw [hanswer] at hf
                  cases hf
                  rfl
          | _ => cases hf
        subst hnil
        exact .inr ⟨rfl, status, rfl⟩

/-- The tables received stay. -/
theorem netStep_tables (h : (remoteSystem n0).ReachableBy TameStep net)
    (h' : (remoteSystem n0).ReachableBy TameStep net') {act : RemoteAct}
    (hact : ∀ c, act ≠ .sendCommand c) (hstep : net.step act = some net') :
    net.tableEvents ⊆ net'.tableEvents := by
  rw [(events_eq h).2, (events_eq h').2]
  rcases (netStep_frame hact hstep).2 with hreceived | ⟨-, f, hreceived⟩
  · rw [hreceived]
    exact List.Subset.refl _
  · rw [hreceived, List.flatMap_append]
    exact List.subset_append_left _ _

/-- A command of `RemoteExec` raises no event. -/
theorem sendCommand_frame {c : RemoteCommand} (hstep : net.step (.sendCommand c) = some net') :
    net'.issued = net.issued ++ [c] ∧ net'.execEvents = net.execEvents ∧
      net'.tableEvents = net.tableEvents := by
  simp only [RemoteNet.step] at hstep
  split at hstep
  · cases hstep
    exact ⟨rfl, rfl, rfl⟩
  · cases hstep

/-! ## Where `RemoteExec` and the handler are -/

/-- What `execStatus` is to be for a status. -/
def verdict (status : ExecStatus) : ExecutionStatus := if status.status = 0 then .success else .error

/-- What the handler has assigned before a stage. -/
def Assigned (info : RemoteExecutionInfo) (status : ExecStatus) : CallbackStage → Prop
  | .execStatus => True
  | .errorCode => info.execStatus = verdict status
  | .pid => info.execStatus = verdict status ∧ info.errorCode = status.status
  | .set => info.execStatus = verdict status ∧ info.errorCode = status.status ∧
      info.remotePid = status.pid

/-- What the invariant is about: the loop, the handler, and what the connection has
sent and raised. -/
structure LaunchView where
  started : List RemoteExecCommand
  todo : List RemoteExecCommand
  passed : Nat
  current : Option RemoteExecutionInfo
  callback : Option (ExecStatus × CallbackStage)
  programs : List RemoteExecCommand
  events : List ExecStatus

def Launcher.view (s : Launcher) : LaunchView :=
  ⟨s.started, s.todo, s.passed, s.current, s.callback, s.net.programs, s.net.execEvents⟩

/-- How far the answer to the program under way has come: not arrived, in the
handler, or assigned. -/
inductive Answer (v : LaunchView) (info : RemoteExecutionInfo) : Prop
  | absent (idle : v.callback = none) (unset : info.signaled = false)
      (events : v.events.length = v.passed)
  | handled (status : ExecStatus) (stage : CallbackStage) (busy : v.callback = some (status, stage))
      (unset : info.signaled = false) (events : v.events.length = v.passed + 1)
      (last : v.events[v.passed]? = some status) (assigned : Assigned info status stage)
  | arrived (status : ExecStatus) (idle : v.callback = none) (set : info.signaled = true)
      (events : v.events.length = v.passed + 1)
      (last : v.events[v.passed]? = some status) (assigned : Assigned info status .set)

/-- Between two programs. -/
structure Between (v : LaunchView) : Prop where
  started : v.started.length = v.passed
  programs : v.programs.length = v.passed
  events : v.events.length = v.passed
  idle : v.callback = none

/-- In front of the command that is next. -/
structure Preparing (v : LaunchView) : Prop where
  started : v.started.length = v.passed + 1
  programs : v.programs.length = v.passed
  events : v.events.length = v.passed
  idle : v.callback = none
  current : ∃ info, v.current = some info ∧ info.signaled = false ∧
    v.started.getLast? = some info.cmd

/-- Behind it. -/
structure Awaiting (v : LaunchView) : Prop where
  started : v.started.length = v.passed + 1
  programs : v.programs.length = v.passed + 1
  current : ∃ info, v.current = some info ∧ v.started.getLast? = some info.cmd ∧ Answer v info

/-- What holds where `RemoteExec` is. -/
def AtPhase (v : LaunchView) : LaunchPhase → Prop
  | .next => Between v
  | .expanding => Preparing v
  | .awaitTable => Preparing v
  | .waiting => Awaiting v
  | .finished => Between v ∧ v.todo = []
  | .raised (.format _) => v.started.length = v.passed + 1 ∧ v.programs.length = v.passed
  | .raised .timeout => v.started.length = v.passed + 1 ∧ v.programs.length = v.passed + 1
  | .raised (.errorCode code) => v.started.length = v.passed + 1 ∧
      v.programs.length = v.passed + 1 ∧
      ∃ status, v.events[v.passed]? = some status ∧ status.status = code ∧ code ≠ 0

/-- A program that was sent is a command with its texts expanded, without a process table or
with one that has been received. -/
def SentAs (tables : List (List RemoteProcessInfo)) (cmd sent : RemoteExecCommand) : Prop :=
  ∃ processes : Option (List RemoteProcessInfo), (∀ table, processes = some table → table ∈ tables) ∧
    expandCommand processes cmd = .ok sent

/-- A run in which the connection behaves as it is to, and what is sent fits its
format. -/
def LaunchOk (s : Launcher) : LaunchAct → Prop
  | .net act => TameStep s.net act
  | .expand => ∀ info sent, s.current = some info →
      expandCommand s.processes info.cmd = .ok sent → sent.Fits
  | _ => True

structure LaunchInv (commands : List RemoteExecCommand) (tables : List (List RemoteProcessInfo))
    (v : LaunchView) (phase : LaunchPhase) : Prop where
  split : v.started ++ v.todo = commands
  sent : List.Forall₂ (SentAs tables) (v.started.take v.programs.length) v.programs
  won : ∀ status ∈ v.events.take v.passed, status.status = 0
  passed_le : v.passed ≤ v.events.length
  phase : AtPhase v phase

/-! ## The steps -/

variable {commands : List RemoteExecCommand} {tables : List (List RemoteProcessInfo)}
  {v : LaunchView} {phase : LaunchPhase}

/-- More tables are received. -/
theorem LaunchInv.mono (h : LaunchInv commands tables v phase) {more : List (List RemoteProcessInfo)}
    (hmore : tables ⊆ more) : LaunchInv commands more v phase := by
  refine ⟨h.split, h.sent.imp fun cmd sent hsent => ?_, h.won, h.passed_le, h.phase⟩
  obtain ⟨processes, hknown, hexpand⟩ := hsent
  exact ⟨processes, fun table htable => hmore (hknown table htable), hexpand⟩

theorem LaunchInv.start (n0 : Int) (commands : List RemoteExecCommand) :
    LaunchInv commands [] (Launcher.start n0 commands).view .next where
  split := rfl
  sent := .nil
  won := by simp [Launcher.start, Launcher.view]
  passed_le := Nat.zero_le _
  phase := ⟨rfl, rfl, rfl, rfl⟩

theorem expandCommand_name {processes : Option (List RemoteProcessInfo)}
    {cmd sent : RemoteExecCommand} (h : expandCommand processes cmd = .ok sent) :
    sent.name = cmd.name := by
  rw [expandCommand] at h
  cases hpath : expandText processes cmd.path with
  | error e =>
      rw [hpath] at h
      cases h
  | ok newCmd =>
      rw [hpath] at h
      cases hargs : cmd.args.mapM (expandText processes) with
      | error e =>
          rw [hargs] at h
          cases h
      | ok newArgs =>
          rw [hargs] at h
          cases henvp : cmd.envp.mapM (expandText processes) with
          | error e =>
              rw [henvp] at h
              cases h
          | ok newEnv =>
              rw [henvp] at h
              cases h
              rfl

/-- The program under way has the name that the handler compares with. -/
theorem LaunchInv.name (h : LaunchInv commands tables v phase) (hwait : Awaiting v)
    {info : RemoteExecutionInfo} (hlast : v.started.getLast? = some info.cmd) :
    ∃ sent, v.programs[v.passed]? = some sent ∧ sent.name = info.cmd.name := by
  have hstarted := hwait.started
  have hprograms := hwait.programs
  have hlt : v.passed < v.programs.length := by omega
  have hsent := h.sent
  rw [List.take_of_length_le (by omega)] at hsent
  rw [List.getLast?_eq_getElem?, hstarted, Nat.add_sub_cancel] at hlast
  obtain ⟨hlt', hcmd⟩ := List.getElem?_eq_some_iff.mp hlast
  obtain ⟨processes, -, hexpand⟩ := hsent.get hlt' hlt
  rw [List.get_eq_getElem, List.get_eq_getElem, hcmd] at hexpand
  exact ⟨_, List.getElem?_eq_getElem hlt, expandCommand_name hexpand⟩

/-- The next status event is the answer to the program under way. -/
theorem LaunchInv.awaited (h : LaunchInv commands tables v phase) (hwait : Awaiting v)
    {events : List ExecStatus} {status : ExecStatus} (hevents : events = v.events ++ [status])
    (hnames : events.map ExecStatus.name <+: v.programs.map RemoteExecCommand.name)
    (hlen : v.events.length = v.passed) {info : RemoteExecutionInfo}
    (hlast : v.started.getLast? = some info.cmd) : info.cmd.name = status.name := by
  obtain ⟨sent, hsent, hname⟩ := h.name hwait hlast
  obtain ⟨later, hlater⟩ := hnames
  rw [hevents, List.map_append] at hlater
  have hget := congrArg (fun names : List String => names[v.passed]?) hlater
  simp only [List.getElem?_map, hsent, Option.map_some, List.map_cons, List.map_nil,
    List.append_assoc] at hget
  rw [List.getElem?_append_right (by rw [List.length_map, hlen]), List.length_map, hlen,
    Nat.sub_self] at hget
  simp only [List.singleton_append, List.getElem?_cons_zero, Option.some.injEq] at hget
  rw [hget, hname]

/-- A status event arrives while no handler is running: it is the answer that is
waited for, or comes after the wait has been given up. -/
theorem LaunchInv.event (h : LaunchInv commands tables v phase) {status : ExecStatus}
    {callback : Option (ExecStatus × CallbackStage)} (hidle : v.callback = none)
    (hnames : (v.events ++ [status]).map ExecStatus.name <+:
      v.programs.map RemoteExecCommand.name)
    (hcallback : ∀ info, v.current = some info → info.cmd.name = status.name →
      callback = some (status, .execStatus)) :
    LaunchInv commands tables { v with events := v.events ++ [status], callback } phase := by
  have hroom := hnames.length_le
  rw [List.length_map, List.length_map, List.length_append, List.length_singleton] at hroom
  have hpassed := h.passed_le
  refine ⟨h.split, h.sent, ?_, ?_, ?_⟩
  · show ∀ st ∈ (v.events ++ [status]).take v.passed, st.status = 0
    rw [List.take_append_of_le_length hpassed]
    exact h.won
  · show v.passed ≤ (v.events ++ [status]).length
    rw [List.length_append]
    omega
  · have hphase := h.phase
    cases phase with
    | next =>
        have := hphase.programs
        omega
    | expanding =>
        have := hphase.programs
        omega
    | awaitTable =>
        have := hphase.programs
        omega
    | finished =>
        have := hphase.1.programs
        omega
    | waiting =>
        obtain ⟨info, hcurrent, hlast, hanswer⟩ := hphase.current
        cases hanswer with
        | absent idle unset events =>
            have hname := h.awaited hphase rfl hnames events hlast
            refine ⟨hphase.started, hphase.programs, info, hcurrent, hlast, ?_⟩
            refine .handled status .execStatus (hcallback info hcurrent hname) unset ?_ ?_ trivial
            · show (v.events ++ [status]).length = v.passed + 1
              rw [List.length_append, events, List.length_singleton]
            · show (v.events ++ [status])[v.passed]? = some status
              rw [← events, List.getElem?_concat_length]
        | handled other stage busy unset events last assigned =>
            rw [hidle] at busy
            cases busy
        | arrived other idle set events last assigned =>
            have := hphase.programs
            omega
    | raised failure =>
        cases failure with
        | format e =>
            have := hphase.2
            omega
        | timeout => exact hphase
        | errorCode code =>
            obtain ⟨hstarted, hprograms, st, hget, -⟩ := hphase
            have := (List.getElem?_eq_some_iff.mp hget).1
            omega

variable {s s' : Launcher}

theorem Launcher.notified_quiet (h : net.execEvents = s.net.execEvents) :
    (s.notified net).callback = s.callback := by
  simp only [Launcher.notified, h, List.drop_length]

/-- A step of the connection, which `RemoteExec` has no command in. -/
theorem Launcher.net_step {act : RemoteAct} (hstep : s.step (.net act) = some s') :
    (∀ c, act ≠ .sendCommand c) ∧ (act = .receive → s.callback = none) ∧
      ∃ net', s.net.step act = some net' ∧ s' = s.notified net' := by
  cases act with
  | sendCommand c => simp [Launcher.step] at hstep
  | receive =>
      cases hcallback : s.callback with
      | some running =>
          simp only [Launcher.step, hcallback] at hstep
          cases hstep
      | none =>
          simp only [Launcher.step, hcallback] at hstep
          obtain ⟨net', hnet, rfl⟩ := Option.map_eq_some_iff.mp hstep
          exact ⟨fun _ => RemoteAct.noConfusion, fun _ => rfl, net', hnet, rfl⟩
  | _ =>
      obtain ⟨net', hnet, rfl⟩ := Option.map_eq_some_iff.mp hstep
      exact ⟨fun _ => RemoteAct.noConfusion, RemoteAct.noConfusion, net', hnet, rfl⟩

/-- The table of the running `SendCommand` has been received. -/
def Launcher.Known (s : Launcher) : Prop :=
  ∀ table, s.processes = some table → table ∈ s.net.tableEvents

theorem Launcher.Known.step (h : s.Known) {act : LaunchAct} (hstep : s.step act = some s')
    (hmore : s.net.tableEvents ⊆ s'.net.tableEvents) : s'.Known := by
  have hsame : s'.processes = s.processes → s'.Known := by
    intro hprocesses table htable
    exact hmore (h table (hprocesses ▸ htable))
  cases act with
  | net act =>
      obtain ⟨-, -, net', -, rfl⟩ := Launcher.net_step hstep
      intro table htable
      cases hdrop : net'.tableEvents.drop s.net.tableEvents.length with
      | nil =>
          simp only [Launcher.notified, hdrop] at htable
          exact hmore (h table htable)
      | cons first rest =>
          simp only [Launcher.notified, hdrop, Option.some.injEq] at htable
          rw [← htable]
          exact List.mem_of_mem_drop (hdrop ▸ List.mem_cons_self)
  | next =>
      simp only [Launcher.step] at hstep
      split at hstep
      · cases hstep
        exact fun table htable => nomatch htable
      · cases hstep
        exact hsame rfl
      · cases hstep
  | expand =>
      simp only [Launcher.step] at hstep
      split at hstep
      · split at hstep
        · obtain ⟨net', -, rfl⟩ := Option.map_eq_some_iff.mp hstep
          exact hsame rfl
        · obtain ⟨net', -, rfl⟩ := Option.map_eq_some_iff.mp hstep
          exact hsame rfl
        · cases hstep
          exact hsame rfl
      · cases hstep
  | tableArrived =>
      simp only [Launcher.step] at hstep
      split at hstep <;> cases hstep
      exact hsame rfl
  | callback =>
      simp only [Launcher.step] at hstep
      split at hstep <;> cases hstep
      exact hsame rfl
  | wake =>
      simp only [Launcher.step] at hstep
      split at hstep
      · split at hstep
        · split at hstep <;> cases hstep <;> exact hsame rfl
        · cases hstep
      · cases hstep
  | timeout =>
      simp only [Launcher.step] at hstep
      split at hstep
      · split at hstep
        · cases hstep
        · cases hstep
          exact hsame rfl
      · cases hstep

/-- A step of the connection. -/
theorem LaunchInv.netStep (h : LaunchInv commands s.net.tableEvents s.view s.phase)
    (hreach : (remoteSystem n0).ReachableBy TameStep s.net) {act : RemoteAct}
    (hok : TameStep s.net act) (hstep : s.step (.net act) = some s') :
    (remoteSystem n0).ReachableBy TameStep s'.net ∧ LaunchInv commands s'.net.tableEvents s'.view s'.phase := by
  obtain ⟨hact, hcallback, net', hnet, rfl⟩ := Launcher.net_step hstep
  have hreach' : (remoteSystem n0).ReachableBy TameStep net' := hreach.step hok hnet
  refine ⟨hreach', ?_⟩
  have hprograms := (netStep_frame hact hnet).1
  have h : LaunchInv commands net'.tableEvents s.view s.phase :=
    h.mono (netStep_tables hreach hreach' hact hnet)
  rcases netStep_events hreach hreach' hact hnet with hevents | ⟨rfl, status, hevents⟩
  · have hview : (s.notified net').view = s.view := by
      simp only [Launcher.view, Launcher.notified_quiet hevents]
      show LaunchView.mk _ _ _ _ _ net'.programs net'.execEvents = _
      rw [hprograms, hevents]
      rfl
    rw [hview]
    exact h
  · have hidle : s.callback = none := hcallback rfl
    have hnames := events_names hreach'
    rw [hevents, hprograms] at hnames
    have hdrop : net'.execEvents.drop s.net.execEvents.length = [status] := by
      rw [hevents, List.drop_left]
    have hview : (s.notified net').view =
        { s.view with
          events := s.view.events ++ [status]
          callback := (s.notified net').callback } := by
      show LaunchView.mk _ _ _ _ _ net'.programs net'.execEvents = _
      rw [hprograms, hevents]
      rfl
    rw [hview]
    refine h.event hidle hnames ?_
    intro info hcurrent hname
    have hawaits : s.awaits status = true := by
      rw [Launcher.awaits, show s.current = some info from hcurrent, Option.any_some, hname]
      exact beq_self_eq_true _
    simp only [Launcher.notified, hdrop, hawaits, if_true]

/-- The loop comes to the next command, or to its end. -/
theorem LaunchInv.next (h : LaunchInv commands s.net.tableEvents s.view s.phase) (hstep : s.step .next = some s') :
    s'.net = s.net ∧ LaunchInv commands s'.net.tableEvents s'.view s'.phase := by
  have hphase := h.phase
  simp only [Launcher.step] at hstep
  split at hstep
  · rename_i cmd rest hnext htodo
    rw [hnext] at hphase
    have hprograms := hphase.programs
    have hstarted := hphase.started
    cases hstep
    refine ⟨rfl, ?_, ?_, h.won, h.passed_le, ?_⟩
    · show s.started ++ [cmd] ++ rest = commands
      rw [← h.split]
      show _ = s.started ++ s.todo
      rw [htodo, List.append_assoc]
      rfl
    · show List.Forall₂ (SentAs _) ((s.started ++ [cmd]).take s.net.programs.length) _
      have hlen : s.net.programs.length ≤ s.started.length := by
        change s.started.length = s.passed at hstarted
        change s.net.programs.length = s.passed at hprograms
        omega
      rw [List.take_append_of_le_length hlen]
      exact h.sent
    · refine ⟨?_, hprograms, hphase.events, hphase.idle, .new cmd, rfl, rfl, ?_⟩
      · show (s.started ++ [cmd]).length = s.passed + 1
        rw [List.length_append]
        exact congrArg (· + 1) hstarted
      · exact List.getLast?_concat
  · rename_i hnext htodo
    rw [hnext] at hphase
    cases hstep
    exact ⟨rfl, h.split, h.sent, h.won, h.passed_le, hphase, htodo⟩
  · cases hstep

/-- The texts are expanded, and the command or the request for the table is sent. -/
theorem LaunchInv.expand (h : LaunchInv commands s.net.tableEvents s.view s.phase)
    (hreach : (remoteSystem n0).ReachableBy TameStep s.net)
    (hknown : s.Known)
    (hfits : ∀ info sent, s.current = some info → expandCommand s.processes info.cmd = .ok sent →
      sent.Fits) (hstep : s.step .expand = some s') :
    ((remoteSystem n0).ReachableBy TameStep s'.net ∧
      LaunchInv commands s'.net.tableEvents s'.view s'.phase) ∧
      s.net.tableEvents ⊆ s'.net.tableEvents := by
  have hphase := h.phase
  simp only [Launcher.step] at hstep
  split at hstep
  · rename_i info hexpanding hcurrent
    rw [hexpanding] at hphase
    obtain ⟨info', hcurrent', hunset, hlast⟩ := hphase.current
    cases hcurrent'.symm.trans hcurrent
    have hstarted : s.started.length = s.passed + 1 := hphase.started
    have hprograms : s.net.programs.length = s.passed := hphase.programs
    split at hstep
    · rename_i sent hexpand
      obtain ⟨net', hnet, rfl⟩ := Option.map_eq_some_iff.mp hstep
      obtain ⟨hissued, hevents, htables⟩ := sendCommand_frame hnet
      have hsent : net'.programs = s.net.programs ++ [sent] := by
        rw [RemoteNet.programs, hissued, List.filterMap_append]
        rfl
      have hok : TameStep s.net (.sendCommand (.exec sent)) := hfits info sent hcurrent hexpand
      refine ⟨⟨hreach.step hok hnet, h.split, ?_, ?_, ?_, ?_⟩, htables.symm ▸ List.Subset.refl _⟩
      · show List.Forall₂ (SentAs net'.tableEvents) (s.started.take net'.programs.length) net'.programs
        rw [htables]
        have htake : s.started.take net'.programs.length =
            s.started.take s.net.programs.length ++ [info.cmd] := by
          rw [hsent, List.length_append, List.length_singleton, hprograms, List.take_add_one]
          congr 1
          change s.started.getLast? = some info.cmd at hlast
          rw [List.getLast?_eq_getElem?, hstarted, Nat.add_sub_cancel] at hlast
          rw [hlast]
          rfl
        rw [htake, hsent]
        exact List.rel_append h.sent (.cons ⟨_, hknown, hexpand⟩ .nil)
      · show ∀ status ∈ net'.execEvents.take s.passed, status.status = 0
        rw [hevents]
        exact h.won
      · show s.passed ≤ net'.execEvents.length
        rw [hevents]
        exact h.passed_le
      · refine ⟨hstarted, ?_, info, hcurrent, hlast, .absent hphase.idle hunset ?_⟩
        · show net'.programs.length = s.passed + 1
          rw [hsent, List.length_append, hprograms, List.length_singleton]
        · show net'.execEvents.length = s.passed
          rw [hevents]
          exact hphase.events
    · obtain ⟨net', hnet, rfl⟩ := Option.map_eq_some_iff.mp hstep
      obtain ⟨hissued, hevents, htables⟩ := sendCommand_frame hnet
      have hsame : net'.programs = s.net.programs := by
        rw [RemoteNet.programs, hissued, List.filterMap_append]
        exact List.append_nil _
      have hview : ({ s with net := net', phase := .awaitTable } : Launcher).view = s.view := by
        show LaunchView.mk _ _ _ _ _ net'.programs net'.execEvents = _
        rw [hsame, hevents]
        rfl
      have hok : TameStep s.net (.sendCommand .processes) := Nat.zero_le _
      refine ⟨⟨hreach.step hok hnet, ?_⟩, htables.symm ▸ List.Subset.refl _⟩
      rw [hview]
      show LaunchInv commands net'.tableEvents s.view .awaitTable
      rw [htables]
      exact ⟨h.split, h.sent, h.won, h.passed_le, hphase⟩
    · cases hstep
      exact ⟨⟨hreach, h.split, h.sent, h.won, h.passed_le, hstarted, hprograms⟩,
        List.Subset.refl _⟩
  · cases hstep

/-- One assignment of the handler. -/
theorem Answer.callback {info : RemoteExecutionInfo} {status : ExecStatus} {stage : CallbackStage}
    (h : Answer v info) (hbusy : v.callback = some (status, stage)) :
    Answer { v with
      current := some (assign info status stage).1
      callback := (assign info status stage).2.map fun stage => (status, stage) }
        (assign info status stage).1 := by
  cases h with
  | absent idle unset events =>
      rw [hbusy] at idle
      cases idle
  | arrived other idle set events last assigned =>
      rw [hbusy] at idle
      cases idle
  | handled other stage' busy unset events last assigned =>
      rw [hbusy] at busy
      cases busy
      cases stage with
      | execStatus => exact .handled status .errorCode rfl unset events last rfl
      | errorCode => exact .handled status .pid rfl unset events last ⟨assigned, rfl⟩
      | pid => exact .handled status .set rfl unset events last ⟨assigned.1, assigned.2, rfl⟩
      | set => exact .arrived status rfl rfl events last assigned

theorem assign_cmd (info : RemoteExecutionInfo) (status : ExecStatus) (stage : CallbackStage) :
    (assign info status stage).1.cmd = info.cmd := by
  cases stage <;> rfl

theorem LaunchInv.callback (h : LaunchInv commands s.net.tableEvents s.view s.phase)
    (hstep : s.step .callback = some s') :
    s'.net = s.net ∧ LaunchInv commands s'.net.tableEvents s'.view s'.phase := by
  have hphase := h.phase
  simp only [Launcher.step] at hstep
  split at hstep
  · rename_i status stage info hbusy hcurrent
    cases hstep
    refine ⟨rfl, h.split, h.sent, h.won, h.passed_le, ?_⟩
    show AtPhase _ s.phase
    generalize s.phase = phase at hphase ⊢
    have hnot : ¬s.callback = none := by simp [hbusy]
    cases phase with
    | next => exact absurd hphase.idle hnot
    | expanding => exact absurd hphase.idle hnot
    | awaitTable => exact absurd hphase.idle hnot
    | finished => exact absurd hphase.1.idle hnot
    | waiting =>
        obtain ⟨info', hcurrent', hlast, hanswer⟩ := hphase.current
        cases hcurrent'.symm.trans hcurrent
        exact ⟨hphase.started, hphase.programs, _, rfl, (assign_cmd info status stage).symm ▸ hlast,
          hanswer.callback hbusy⟩
    | raised failure => cases failure <;> exact hphase
  · cases hstep

/-- `WaitOne` returns true: the handler has assigned the status. -/
theorem LaunchInv.wake (h : LaunchInv commands s.net.tableEvents s.view s.phase) (hstep : s.step .wake = some s') :
    s'.net = s.net ∧ LaunchInv commands s'.net.tableEvents s'.view s'.phase := by
  have hphase := h.phase
  simp only [Launcher.step] at hstep
  split at hstep
  · rename_i info hwaiting hcurrent
    rw [hwaiting] at hphase
    obtain ⟨info', hcurrent', hlast, hanswer⟩ := hphase.current
    cases hcurrent'.symm.trans hcurrent
    split at hstep
    · rename_i hset
      cases hanswer with
      | absent idle unset events =>
          rw [hset] at unset
          cases unset
      | handled other stage busy unset events last assigned =>
          rw [hset] at unset
          cases unset
      | arrived status idle set events last assigned =>
          obtain ⟨hverdict, hcode, -⟩ := assigned
          split at hstep
          · rename_i hsuccess
            have hzero : status.status = 0 := by
              rw [hsuccess, verdict] at hverdict
              split at hverdict
              · assumption
              · cases hverdict
            cases hstep
            refine ⟨rfl, h.split, h.sent, ?_, ?_, hphase.started, hphase.programs, events, idle⟩
            · show ∀ st ∈ s.net.execEvents.take (s.passed + 1), st.status = 0
              have hget : s.net.execEvents[s.passed]? = some status := last
              rw [List.take_add_one, hget]
              intro st hst
              rcases List.mem_append.mp hst with hst | hst
              · exact h.won st hst
              · rw [Option.toList_some, List.mem_singleton] at hst
                rw [hst, hzero]
            · exact Nat.le_of_eq events.symm
          · rename_i hfailed
            have hnonzero : info.errorCode ≠ 0 := by
              intro hzero
              rw [hcode] at hzero
              rw [verdict, if_pos hzero] at hverdict
              exact hfailed hverdict
            cases hstep
            exact ⟨rfl, h.split, h.sent, h.won, h.passed_le, hphase.started, hphase.programs,
              status, last, hcode.symm, hnonzero⟩
    · cases hstep
  · cases hstep

/-- **The invariant.** -/
theorem launchInv_of_reachable
    (hs : (launchSystem n0 commands).ReachableBy LaunchOk s) :
    (remoteSystem n0).ReachableBy TameStep s.net ∧
      LaunchInv commands s.net.tableEvents s.view s.phase := by
  have hinductive : (launchSystem n0 commands).Inductive LaunchOk fun s =>
      ((remoteSystem n0).ReachableBy TameStep s.net ∧
        LaunchInv commands s.net.tableEvents s.view s.phase) ∧ s.Known := by
    refine ⟨?_, ?_⟩
    · rintro s rfl
      exact ⟨⟨.init rfl, LaunchInv.start n0 commands⟩, fun table htable => nomatch htable⟩
    · rintro s act s' ⟨⟨hreach, h⟩, hknown⟩ hok hstep
      change s.step act = some s' at hstep
      have hquiet : s'.net = s.net → s.net.tableEvents ⊆ s'.net.tableEvents := by
        intro hnet
        rw [hnet]
        exact List.Subset.refl _
      cases act with
      | net act =>
          obtain ⟨hact, -, net', hnet, rfl⟩ := Launcher.net_step hstep
          have hnext := h.netStep hreach hok hstep
          exact ⟨hnext, hknown.step hstep (netStep_tables hreach hnext.1 hact hnet)⟩
      | next =>
          obtain ⟨hnet, h'⟩ := h.next hstep
          exact ⟨⟨hnet ▸ hreach, h'⟩, hknown.step hstep (hquiet hnet)⟩
      | expand =>
          obtain ⟨hnext, htables⟩ := h.expand hreach hknown hok hstep
          exact ⟨hnext, hknown.step hstep htables⟩
      | tableArrived =>
          have hstep' := hstep
          have hphase := h.phase
          simp only [Launcher.step] at hstep'
          split at hstep'
          · rename_i hawait _
            rw [hawait] at hphase
            cases hstep'
            exact ⟨⟨hreach, h.split, h.sent, h.won, h.passed_le, hphase⟩,
              hknown.step hstep (hquiet rfl)⟩
          · cases hstep'
      | callback =>
          obtain ⟨hnet, h'⟩ := h.callback hstep
          exact ⟨⟨hnet ▸ hreach, h'⟩, hknown.step hstep (hquiet hnet)⟩
      | wake =>
          obtain ⟨hnet, h'⟩ := h.wake hstep
          exact ⟨⟨hnet ▸ hreach, h'⟩, hknown.step hstep (hquiet hnet)⟩
      | timeout =>
          have hstep' := hstep
          have hphase := h.phase
          simp only [Launcher.step] at hstep'
          split at hstep'
          · rename_i hwaiting _
            rw [hwaiting] at hphase
            split at hstep'
            · cases hstep'
            · cases hstep'
              exact ⟨⟨hreach, h.split, h.sent, h.won, h.passed_le, hphase.started,
                hphase.programs⟩, hknown.step hstep (hquiet rfl)⟩
          · cases hstep'
  exact (hinductive.invariant s hs).1

end InMemoryFuzzing.RemoteControl

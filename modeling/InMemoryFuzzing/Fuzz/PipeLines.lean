import InMemoryFuzzing.Base.Pieces
import InMemoryFuzzing.DataLog.PipeLog
import InMemoryFuzzing.Fuzz.LoopLogic

/-!
# The pipes during a session

What the `RemotePipeLogger` is told: `PipeData` events of any pipes, and the calls of the
controller. Each file is what has been received for the pipes that are logged from the start
that created the file up to the next call, which closes it, or as much of that as has been
passed on (`run_origin`).
-/

namespace InMemoryFuzzing.Fuzz

open Base Platform DotNet DataLog

variable {α β : Type}

/-! ## Events -/

/-- The arguments of a `PipeData` event. -/
structure PipeData (α : Type) where
  pipeId : Int
  pipeName : String
  data : List α
  index : Nat
  offset : Nat
  deriving DecidableEq

/-- The data the event is about. -/
def PipeData.payload (d : PipeData α) : List α := (d.data.drop d.index).take d.offset

inductive PipeLogEvent (α : Type)
  | pipeData (d : PipeData α)
  | call (c : LoggerCall)
  deriving DecidableEq

namespace PipeLogEvent

def call? : PipeLogEvent α → Option LoggerCall
  | .call c => some c
  | .pipeData _ => none

/-- What is received from any pipe. -/
def chunk : PipeLogEvent α → List α
  | .pipeData d => d.payload
  | .call _ => []

/-- What is received from a pipe that is logged. -/
def logged (logPipeNames : List String) : PipeLogEvent α → List α
  | .pipeData d => if RemotePipeLogger.Logs logPipeNames d.pipeName then d.payload else []
  | .call _ => []

/-- What is received from one pipe. -/
def output (pipeId : Int) : PipeLogEvent α → List α
  | .pipeData d => if d.pipeId = pipeId then d.payload else []
  | .call _ => []

/-- What the event has the logger write. -/
def writes? (logPipeNames : List String) : PipeLogEvent α → Option (List α)
  | .pipeData d => if RemotePipeLogger.Logs logPipeNames d.pipeName then some d.payload else none
  | .call _ => none

/-- The file that the event creates. -/
def creates? (path : String) : PipeLogEvent α → Option String
  | .call (.startingFuzzRun runPrefix) =>
      some (RemotePipeLogger.buildLogFile path (some runPrefix))
  | _ => none

end PipeLogEvent

/-- The calls of the controller. -/
def callsOf (events : List (PipeLogEvent α)) : List LoggerCall :=
  events.filterMap PipeLogEvent.call?

/-- The writes to an open file. -/
def writesOf (logPipeNames : List String) (events : List (PipeLogEvent α)) : List (List α) :=
  events.filterMap (·.writes? logPipeNames)

theorem writesOf_append (logPipeNames : List String) (front back : List (PipeLogEvent α)) :
    writesOf logPipeNames (front ++ back) =
      writesOf logPipeNames front ++ writesOf logPipeNames back := List.filterMap_append

theorem flatten_writesOf (logPipeNames : List String) (events : List (PipeLogEvent α)) :
    (writesOf logPipeNames events).flatten = events.flatMap (·.logged logPipeNames) := by
  induction events with
  | nil => rfl
  | cons e events ih =>
      rw [List.flatMap_cons, ← ih, writesOf, List.filterMap_cons]
      cases e with
      | call c => rfl
      | pipeData d =>
          by_cases hlogs : RemotePipeLogger.Logs logPipeNames d.pipeName
          · simp only [PipeLogEvent.writes?, PipeLogEvent.logged, if_pos hlogs, List.flatten_cons]
            rfl
          · simp only [PipeLogEvent.writes?, PipeLogEvent.logged, if_neg hlogs, List.nil_append]
            rfl

/-- The file that is open behind these events. -/
def openFile (path : String) (events : List (PipeLogEvent α)) : Option String :=
  match (callsOf events).getLast? with
  | some (.startingFuzzRun runPrefix) =>
      some (RemotePipeLogger.buildLogFile path (some runPrefix))
  | _ => none

/-! ## The run of the logger -/

/-- The logger and its files. -/
structure PipeLog (β : Type) where
  logger : RemotePipeLogger β
  files : Files β

namespace PipeLog

def step (passed : List Nat → Nat) (write : List α → List β) (s : PipeLog β) :
    PipeLogEvent α → Except NetException (PipeLog β)
  | .pipeData d =>
      let handled := s.logger.handlerPipeData passed write s.files d.pipeName d.data d.index d.offset
      .ok ⟨handled.1, handled.2⟩
  | .call (.finishedFuzzRun _) => do
      let finished ← s.logger.finishedFuzzRun s.files
      return ⟨finished.1, finished.2⟩
  | .call (.startingFuzzRun runPrefix) =>
      let started := { s.logger with runPrefix := some runPrefix }.startingFuzzRun s.files
      .ok ⟨started.1, started.2⟩

def run (passed : List Nat → Nat) (write : List α → List β) (s : PipeLog β)
    (events : List (PipeLogEvent α)) : Except NetException (PipeLog β) :=
  events.foldlM (step passed write) s

/-- Behind the constructor. -/
def initial (logPipeNames : List String) (path : String) (files : Files β) : PipeLog β :=
  ⟨⟨logPipeNames, path, none, none⟩, files⟩

/-- The files with what is still in the buffers. -/
def closed (s : PipeLog β) : Files β := s.logger.sink.elim s.files fun sink => sink.close s.files

/-- The file of the sink. -/
def file? (s : PipeLog β) : Option String := s.logger.sink.map StreamWriter.file

theorem run_append (passed : List Nat → Nat) (write : List α → List β) (s : PipeLog β)
    (front back : List (PipeLogEvent α)) :
    s.run passed write (front ++ back) =
      (s.run passed write front).bind fun mid => mid.run passed write back :=
  List.foldlM_append

theorem run_singleton (passed : List Nat → Nat) (write : List α → List β) (s : PipeLog β)
    (e : PipeLogEvent α) : s.run passed write [e] = s.step passed write e := by
  rw [run, List.foldlM_cons]
  cases s.step passed write e <;> rfl

theorem closed_of_ne {s : PipeLog β} {f : String} (h : s.file? ≠ some f) : s.closed f = s.files f := by
  rw [closed]
  cases hsink : s.logger.sink with
  | none => rfl
  | some sink =>
      have hfile : f ≠ sink.file := fun heq => h (by rw [file?, hsink, heq]; rfl)
      exact Function.update_of_ne hfile _ _

theorem closed_of_sink {s : PipeLog β} {sink : StreamWriter β} (h : s.logger.sink = some sink) :
    s.closed sink.file = some sink.written.flatten := by
  rw [closed, h]
  exact Function.update_self _ _ _

end PipeLog

/-! ## One step -/

section

variable {passed : List Nat → Nat} {write : List α → List β} {s s' : PipeLog β}

/-- What a step does to the sink. -/
def PipeLogEvent.sink (write : List α → List β) (logPipeNames : List String) (path : String)
    (sink : Option (StreamWriter β)) : PipeLogEvent α → Option (StreamWriter β)
  | .pipeData d =>
      if RemotePipeLogger.Logs logPipeNames d.pipeName then sink.map (·.write (write d.payload))
      else sink
  | .call (.finishedFuzzRun _) => none
  | .call (.startingFuzzRun runPrefix) =>
      some ⟨RemotePipeLogger.buildLogFile path (some runPrefix), []⟩

/-- What a step does to the open file. -/
def PipeLogEvent.opens (path : String) (file : Option String) : PipeLogEvent α → Option String
  | .pipeData _ => file
  | .call (.finishedFuzzRun _) => none
  | .call (.startingFuzzRun runPrefix) =>
      some (RemotePipeLogger.buildLogFile path (some runPrefix))

theorem PipeLogEvent.file_sink (write : List α → List β) (logPipeNames : List String) (path : String)
    (sink : Option (StreamWriter β)) (e : PipeLogEvent α) :
    (e.sink write logPipeNames path sink).map StreamWriter.file =
      e.opens path (sink.map StreamWriter.file) := by
  cases e with
  | pipeData d =>
      rw [PipeLogEvent.sink, PipeLogEvent.opens]
      split
      · cases sink <;> rfl
      · rfl
  | call c => cases c <;> rfl

/-- Behind a call, the file that it has created is the only one that can be open. -/
theorem opens_call (path : String) (file : Option String) (c : LoggerCall) :
    (PipeLogEvent.call c : PipeLogEvent α).opens path file =
      (PipeLogEvent.call c : PipeLogEvent α).creates? path := by
  cases c <;> rfl

theorem finishedFuzzRun_ok {l : RemotePipeLogger β} {files : Files β} {finished}
    (h : l.finishedFuzzRun files = .ok finished) :
    ∃ sink, l.sink = some sink ∧ finished = ({ l with sink := none }, sink.close files) := by
  unfold RemotePipeLogger.finishedFuzzRun at h
  split at h
  · rename_i sink hsink
    cases h
    exact ⟨sink, hsink, rfl⟩
  · cases h

/-- The logger behind a step. -/
theorem step_logger {e : PipeLogEvent α} (h : s.step passed write e = .ok s') :
    s'.logger.logPipeNames = s.logger.logPipeNames ∧ s'.logger.path = s.logger.path ∧
      s'.logger.sink = e.sink write s.logger.logPipeNames s.logger.path s.logger.sink := by
  cases e with
  | pipeData d =>
      cases h
      rw [PipeLogEvent.sink]
      unfold RemotePipeLogger.handlerPipeData
      by_cases hlogs : RemotePipeLogger.Logs s.logger.logPipeNames d.pipeName
      · rw [if_pos hlogs, if_pos hlogs]
        cases hsink : s.logger.sink with
        | none => exact ⟨rfl, rfl, hsink⟩
        | some sink => exact ⟨rfl, rfl, rfl⟩
      · rw [if_neg hlogs, if_neg hlogs]
        exact ⟨rfl, rfl, rfl⟩
  | call c =>
      cases c with
      | startingFuzzRun runPrefix =>
          cases h
          exact ⟨rfl, rfl, rfl⟩
      | finishedFuzzRun runPrefix =>
          obtain ⟨finished, hfinished, hret⟩ := bind_ok.mp h
          cases hret
          obtain ⟨sink, -, rfl⟩ := finishedFuzzRun_ok hfinished
          exact ⟨rfl, rfl, rfl⟩

theorem step_file {e : PipeLogEvent α} (h : s.step passed write e = .ok s') :
    s'.file? = e.opens s.logger.path s.file? := by
  rw [PipeLog.file?, (step_logger h).2.2, PipeLogEvent.file_sink]
  rfl

/-- Data goes to the open file, as far as it is passed on. -/
theorem step_data {d : PipeData α} (h : s.step passed write (.pipeData d) = .ok s') (f : String) :
    s'.files f =
      if s.file? = some f ∧ RemotePipeLogger.Logs s.logger.logPipeNames d.pipeName then
        s'.logger.sink.map (·.flushed passed)
      else s.files f := by
  cases h
  unfold RemotePipeLogger.handlerPipeData PipeLog.file?
  by_cases hlogs : RemotePipeLogger.Logs s.logger.logPipeNames d.pipeName
  · rw [if_pos hlogs]
    cases hsink : s.logger.sink with
    | none => simp
    | some sink =>
        by_cases hfile : sink.file = f
        · subst hfile
          rw [if_pos ⟨rfl, hlogs⟩]
          exact Function.update_self _ _ _
        · rw [if_neg (fun h => hfile (Option.some.inj h.1))]
          exact Function.update_of_ne (Ne.symm hfile) _ _
  · rw [if_neg hlogs, if_neg (fun h => hlogs h.2)]

/-- A call closes the file and creates its own. -/
theorem step_call {c : LoggerCall} (h : s.step passed write (.call c : PipeLogEvent α) = .ok s')
    (f : String) :
    s'.files f =
      if (PipeLogEvent.call c : PipeLogEvent α).creates? s.logger.path = some f then some []
      else s.closed f := by
  cases c with
  | startingFuzzRun runPrefix =>
      cases h
      let logger : RemotePipeLogger β := { s.logger with runPrefix := some runPrefix }
      let file := RemotePipeLogger.buildLogFile s.logger.path (some runPrefix)
      show (logger.startingFuzzRun s.files).2 f = if some file = some f then some [] else s.closed f
      rw [RemotePipeLogger.startingFuzzRun_files]
      by_cases hfile : file = f
      · rw [if_pos (congrArg some hfile), ← hfile]
        exact Function.update_self _ _ _
      · rw [if_neg (fun h => hfile (Option.some.inj h))]
        exact Function.update_of_ne (Ne.symm hfile) _ _
  | finishedFuzzRun runPrefix =>
      obtain ⟨finished, hfinished, hret⟩ := bind_ok.mp h
      cases hret
      obtain ⟨sink, hsink, rfl⟩ := finishedFuzzRun_ok hfinished
      rw [PipeLog.closed, hsink]
      rfl

/-- The open file is what has been passed on. -/
def PipeLog.Passes (passed : List Nat → Nat) (s : PipeLog β) : Prop :=
  ∀ sink, s.logger.sink = some sink → s.files sink.file = some (sink.flushed passed)

theorem step_passes {e : PipeLogEvent α} (h : s.step passed write e = .ok s')
    (hpasses : s.Passes passed) : s'.Passes passed := by
  intro sink hsink'
  have hsink := (step_logger h).2.2
  rw [hsink'] at hsink
  cases e with
  | pipeData d =>
      rw [step_data h]
      by_cases hlogs : RemotePipeLogger.Logs s.logger.logPipeNames d.pipeName
      · rw [PipeLogEvent.sink, if_pos hlogs] at hsink
        obtain ⟨old, hold, rfl⟩ := Option.map_eq_some_iff.mp hsink.symm
        rw [if_pos ⟨by rw [PipeLog.file?, hold]; rfl, hlogs⟩, hsink']
        rfl
      · rw [PipeLogEvent.sink, if_neg hlogs] at hsink
        rw [if_neg fun h => hlogs h.2]
        exact hpasses sink hsink.symm
  | call c =>
      cases c with
      | finishedFuzzRun runPrefix => cases hsink
      | startingFuzzRun runPrefix =>
          cases hsink
          rw [step_call h]
          exact (if_pos rfl).trans (congrArg some List.take_nil.symm)

end

/-! ## Runs -/

theorem callsOf_append (front back : List (PipeLogEvent α)) :
    callsOf (front ++ back) = callsOf front ++ callsOf back := List.filterMap_append

theorem openFile_append (path : String) (events : List (PipeLogEvent α)) (e : PipeLogEvent α) :
    openFile path (events ++ [e]) = e.opens path (openFile path events) := by
  unfold openFile
  rw [callsOf_append]
  cases e with
  | pipeData d =>
      have hnone : callsOf [(PipeLogEvent.pipeData d : PipeLogEvent α)] = [] := rfl
      rw [hnone, List.append_nil]
      rfl
  | call c =>
      have hone : callsOf [(PipeLogEvent.call c : PipeLogEvent α)] = [c] := rfl
      rw [hone, List.getLast?_append, List.getLast?_singleton]
      cases c <;> rfl

/-- Calls of the events that have none. -/
theorem openFile_data (path : String) (events stretch : List (PipeLogEvent α))
    (h : ∀ e ∈ stretch, e.call? = none) : openFile path (events ++ stretch) = openFile path events := by
  unfold openFile
  have hnone : callsOf stretch = [] := List.filterMap_eq_nil_iff.mpr h
  rw [callsOf_append, hnone, List.append_nil]

/-- Behind a start its file is open, up to the next call. -/
theorem openFile_start (path : String) (before stretch : List (PipeLogEvent α)) (runPrefix : String)
    (h : ∀ e ∈ stretch, e.call? = none) :
    openFile path (before ++ .call (.startingFuzzRun runPrefix) :: stretch) =
      some (RemotePipeLogger.buildLogFile path (some runPrefix)) := by
  have hopen := openFile_data path (before ++ [.call (.startingFuzzRun runPrefix)]) stretch h
  rw [List.append_assoc, List.singleton_append, openFile_append] at hopen
  exact hopen

section

variable {passed : List Nat → Nat} {write : List α → List β} {s s' : PipeLog β}
  {events : List (PipeLogEvent α)}

/-- A run that starts with an event. -/
theorem run_cons {e : PipeLogEvent α} (h : s.run passed write (e :: events) = .ok s') :
    ∃ mid, s.step passed write e = .ok mid ∧ mid.run passed write events = .ok s' := by
  rw [PipeLog.run, List.foldlM_cons] at h
  exact bind_ok.mp h

/-- A run with one more event. -/
theorem run_snoc {e : PipeLogEvent α} (h : s.run passed write (events ++ [e]) = .ok s') :
    ∃ mid, s.run passed write events = .ok mid ∧ mid.step passed write e = .ok s' := by
  rw [PipeLog.run_append] at h
  obtain ⟨mid, hmid, hstep⟩ := bind_ok.mp h
  rw [PipeLog.run_singleton] at hstep
  exact ⟨mid, hmid, hstep⟩

end

/-- Every finish follows a start. -/
def Alternates : Bool → List LoggerCall → Prop
  | _, [] => True
  | _, .startingFuzzRun _ :: calls => Alternates true calls
  | isOpen, .finishedFuzzRun _ :: calls => isOpen = true ∧ Alternates false calls

/-- The runs of a session do. -/
theorem runCalls_alternates (text : Nat → String) (n : Nat) (isOpen : Bool) :
    Alternates false (runCalls text n isOpen) := by
  rw [runCalls]
  induction List.range n with
  | nil => cases isOpen <;> exact trivial
  | cons i runs ih =>
      rw [List.flatMap_cons]
      exact ⟨rfl, ih⟩

/-- Then no call is made without a file. -/
theorem run_total {passed : List Nat → Nat} {write : List α → List β} {s : PipeLog β}
    {events : List (PipeLogEvent α)} (h : Alternates s.file?.isSome (callsOf events)) :
    ∃ s', s.run passed write events = .ok s' := by
  induction events generalizing s with
  | nil => exact ⟨s, rfl⟩
  | cons e events ih =>
      have hgo : ∀ mid, s.step passed write e = .ok mid →
          Alternates mid.file?.isSome (callsOf events) → ∃ s', s.run passed write (e :: events) = .ok s' := by
        intro mid hmid hrest
        rw [PipeLog.run, List.foldlM_cons, hmid]
        exact ih hrest
      cases e with
      | pipeData d =>
          have hstep : s.step passed write (.pipeData d) = .ok _ := rfl
          exact hgo _ hstep (by rw [step_file hstep]; exact h)
      | call c =>
          cases c with
          | startingFuzzRun runPrefix => exact hgo _ rfl h
          | finishedFuzzRun runPrefix =>
              -- `_sink.Close ()`, which would raise on null
              obtain ⟨hopen, hrest⟩ := h
              rw [PipeLog.file?, Option.isSome_map] at hopen
              obtain ⟨sink, hsink⟩ := Option.isSome_iff_exists.mp hopen
              have hfinished : s.logger.finishedFuzzRun s.files =
                  .ok ({ s.logger with sink := none }, sink.close s.files) := by
                rw [RemotePipeLogger.finishedFuzzRun, hsink]
              refine hgo ⟨{ s.logger with sink := none }, sink.close s.files⟩ ?_ hrest
              rw [PipeLog.step, hfinished]
              rfl

section

variable {passed : List Nat → Nat} {write : List α → List β} {logPipeNames : List String}
  {path : String} {files : Files β}

/-- The logger behind a run. -/
theorem run_logger {events : List (PipeLogEvent α)} {s : PipeLog β}
    (h : (PipeLog.initial logPipeNames path files).run passed write events = .ok s) :
    s.logger.logPipeNames = logPipeNames ∧ s.logger.path = path ∧
      s.file? = openFile path events := by
  induction events using List.reverseRecOn generalizing s with
  | nil =>
      cases h
      exact ⟨rfl, rfl, rfl⟩
  | append_singleton events e ih =>
      obtain ⟨mid, hmid, hstep⟩ := run_snoc h
      obtain ⟨hnames, hpath, hfile⟩ := ih hmid
      obtain ⟨hnames', hpath', -⟩ := step_logger hstep
      refine ⟨hnames'.trans hnames, hpath'.trans hpath, ?_⟩
      rw [step_file hstep, hpath, hfile, openFile_append]

/-- The open file is what has been passed on. -/
theorem run_passes {events : List (PipeLogEvent α)} {s : PipeLog β}
    (h : (PipeLog.initial logPipeNames path files).run passed write events = .ok s) :
    s.Passes passed := by
  induction events using List.reverseRecOn generalizing s with
  | nil =>
      cases h
      intro sink hsink
      cases hsink
  | append_singleton events e ih =>
      obtain ⟨mid, hmid, hstep⟩ := run_snoc h
      exact step_passes hstep (ih hmid)

end

/-! ## Where the contents come from -/

/-- What is in a file to which this has been written, where these events have followed: all of it
once a call has closed the file, and what has been passed on before. -/
def contentOf (passed : List Nat → Nat) (logPipeNames : List String)
    (stretch after : List (PipeLogEvent α)) : List α :=
  match after with
  | [] => (writesOf logPipeNames stretch).flatten.take
      (passed ((writesOf logPipeNames stretch).map List.length))
  | _ :: _ => (writesOf logPipeNames stretch).flatten

theorem contentOf_front (passed : List Nat → Nat) (logPipeNames : List String)
    (stretch after : List (PipeLogEvent α)) :
    contentOf passed logPipeNames stretch after <+: stretch.flatMap (·.logged logPipeNames) := by
  rw [← flatten_writesOf]
  cases after with
  | nil => exact List.take_prefix _ _
  | cons e after => exact List.prefix_refl _

/-- The file `f` was created by the last start under its name, and holds what the pipes that are
logged have sent from there up to the next call. -/
structure Origin (passed : List Nat → Nat) (logPipeNames : List String) (path : String)
    (events : List (PipeLogEvent α)) (f : String) (content : List α)
    (before stretch after : List (PipeLogEvent α)) : Prop where
  run : ∃ runPrefix, events = before ++ .call (.startingFuzzRun runPrefix) :: (stretch ++ after) ∧
    RemotePipeLogger.buildLogFile path (some runPrefix) = f
  data : ∀ e ∈ stretch, e.call? = none
  ends : ∀ e rest, after = e :: rest → e.call? ≠ none
  kept : ∀ e ∈ after, e.creates? path ≠ some f
  content_eq : content = contentOf passed logPipeNames stretch after

section

variable {passed : List Nat → Nat} {logPipeNames : List String} {path : String}
  {events before stretch after : List (PipeLogEvent α)} {f : String} {content : List α}

/-- The file is open, and an event of a pipe arrives. -/
theorem Origin.receive (h : Origin passed logPipeNames path events f content before stretch [])
    (d : PipeData α) :
    Origin passed logPipeNames path (events ++ [.pipeData d]) f
      (contentOf passed logPipeNames (stretch ++ [.pipeData d]) []) before
      (stretch ++ [.pipeData d]) [] := by
  obtain ⟨runPrefix, rfl, hfile⟩ := h.run
  refine ⟨⟨runPrefix, by simp, hfile⟩, ?_, h.ends, h.kept, rfl⟩
  intro e he
  rcases List.mem_append.mp he with hold | hnew
  · exact h.data e hold
  · rw [List.mem_singleton.mp hnew]
    rfl

/-- The file is open, and a call closes it. -/
theorem Origin.close (h : Origin passed logPipeNames path events f content before stretch [])
    {c : LoggerCall} (hc : (PipeLogEvent.call c : PipeLogEvent α).creates? path ≠ some f) :
    Origin passed logPipeNames path (events ++ [.call c]) f
      (contentOf passed logPipeNames stretch [.call c]) before stretch [.call c] := by
  obtain ⟨runPrefix, rfl, hfile⟩ := h.run
  refine ⟨⟨runPrefix, by simp, hfile⟩, h.data, ?_, ?_, rfl⟩
  · intro e rest hrest
    cases hrest
    exact Option.some_ne_none c
  · intro e he
    rw [List.mem_singleton.mp he]
    exact hc

/-- The file is closed, and the event does not create it. -/
theorem Origin.other (h : Origin passed logPipeNames path events f content before stretch after)
    (hclosed : after ≠ []) {e : PipeLogEvent α} (he : e.creates? path ≠ some f) :
    Origin passed logPipeNames path (events ++ [e]) f content before stretch (after ++ [e]) := by
  obtain ⟨runPrefix, rfl, hfile⟩ := h.run
  obtain ⟨first, rest, rfl⟩ := List.exists_cons_of_ne_nil hclosed
  refine ⟨⟨runPrefix, by simp, hfile⟩, h.data, ?_, ?_, h.content_eq⟩
  · intro x rest' hrest
    cases hrest
    exact h.ends first rest rfl
  · intro x hx
    rcases List.mem_append.mp hx with hold | hnew
    · exact h.kept x hold
    · rw [List.mem_singleton.mp hnew]
      exact he

/-- The contents of the file have an origin; while it is open the sink has been told to write what
has arrived since, and no call has followed. -/
def HasOrigin (passed : List Nat → Nat) (logPipeNames : List String) (path : String)
    (events : List (PipeLogEvent α)) (f : String) (s : PipeLog α) : Prop :=
  ∀ content, s.files f = some content → ∃ before stretch after,
    Origin passed logPipeNames path events f content before stretch after ∧
      (after = [] → s.logger.sink = some ⟨f, writesOf logPipeNames stretch⟩) ∧
      (s.file? = some f → after = [])

theorem HasOrigin.data {s s' : PipeLog α} (h : HasOrigin passed logPipeNames path events f s)
    (hnames : s.logger.logPipeNames = logPipeNames) (hpasses : s.Passes passed)
    {d : PipeData α} (hstep : s.step passed id (.pipeData d) = .ok s') :
    HasOrigin passed logPipeNames path (events ++ [.pipeData d]) f s' := by
  intro content hcontent
  have hsink := (step_logger hstep).2.2
  have hfile : s'.file? = s.file? := step_file hstep
  by_cases hopen : s.file? = some f
  · obtain ⟨sink, hold, hname⟩ := Option.map_eq_some_iff.mp hopen
    -- the file is open: the packet belongs to the stretch
    have hcontent' := step_passes hstep hpasses
    obtain ⟨before, stretch, after, horigin, hwritten, hafter⟩ :=
      h _ (hname ▸ hpasses sink hold)
    obtain rfl := hafter hopen
    have hnew := horigin.receive d
    have hsink' : s'.logger.sink =
        some ⟨f, writesOf logPipeNames (stretch ++ [.pipeData d])⟩ := by
      rw [hsink, hnames, hwritten rfl, writesOf_append, PipeLogEvent.sink]
      by_cases hlogs : RemotePipeLogger.Logs logPipeNames d.pipeName
      · rw [if_pos hlogs]
        simp only [writesOf, List.filterMap_cons, PipeLogEvent.writes?, if_pos hlogs]
        rfl
      · rw [if_neg hlogs]
        simp only [writesOf, List.filterMap_cons, PipeLogEvent.writes?, if_neg hlogs,
          List.filterMap_nil, List.append_nil]
    have hflushed := hcontent' _ hsink'
    rw [hcontent] at hflushed
    refine ⟨before, _, [], ?_, fun _ => hsink', fun _ => rfl⟩
    rw [Option.some.inj hflushed]
    exact hnew
  · rw [step_data hstep, if_neg (fun h => hopen h.1)] at hcontent
    obtain ⟨before, stretch, after, horigin, hwritten, -⟩ := h content hcontent
    have hclosed : after ≠ [] := fun hnil => hopen (by rw [PipeLog.file?, hwritten hnil]; rfl)
    have hcreates : (PipeLogEvent.pipeData d).creates? path ≠ some f := by
      intro hfile
      cases hfile
    refine ⟨before, stretch, _, horigin.other hclosed hcreates, fun hnil => ?_, fun hfile' => ?_⟩
    · exact absurd hnil (List.append_ne_nil_of_left_ne_nil hclosed _)
    · exact absurd (hfile ▸ hfile') hopen

theorem HasOrigin.call {s s' : PipeLog α} (h : HasOrigin passed logPipeNames path events f s)
    (hpath : s.logger.path = path) (hpasses : s.Passes passed) {c : LoggerCall}
    (hstep : s.step passed id (.call c : PipeLogEvent α) = .ok s') :
    HasOrigin passed logPipeNames path (events ++ [.call c]) f s' := by
  intro content hcontent
  have hsink := (step_logger hstep).2.2
  have hfile' := step_file hstep
  rw [opens_call, hpath] at hfile'
  rw [step_call hstep, hpath] at hcontent
  split at hcontent
  · rename_i hcreates
    cases hcontent
    cases c with
    | finishedFuzzRun runPrefix => cases hcreates
    | startingFuzzRun runPrefix =>
        -- the file is new
        have hname := Option.some.inj hcreates
        refine ⟨events, [], [], ⟨⟨runPrefix, rfl, hname⟩, ?_, ?_, ?_, List.take_nil.symm⟩,
          fun _ => ?_, fun _ => rfl⟩
        · intro e he
          cases he
        · intro e rest hrest
          cases hrest
        · intro e he
          cases he
        · rw [hsink, hpath, ← hname]
          rfl
  · rename_i hcreates
    have hother : s'.file? ≠ some f := by
      rw [hfile']
      exact hcreates
    by_cases hopen : s.file? = some f
    · obtain ⟨sink, hold, hname⟩ := Option.map_eq_some_iff.mp hopen
      obtain ⟨before, stretch, after, horigin, hwritten, hafter⟩ :=
        h _ (hname ▸ hpasses sink hold)
      obtain rfl := hafter hopen
      have hall := PipeLog.closed_of_sink (hwritten rfl)
      rw [hcontent] at hall
      refine ⟨before, stretch, [.call c], ?_, fun hnil => ?_, fun hfile => absurd hfile hother⟩
      · rw [Option.some.inj hall]
        exact horigin.close hcreates
      · cases hnil
    · rw [PipeLog.closed_of_ne hopen] at hcontent
      obtain ⟨before, stretch, after, horigin, hwritten, -⟩ := h content hcontent
      have hclosed : after ≠ [] := fun hnil => hopen (by rw [PipeLog.file?, hwritten hnil]; rfl)
      refine ⟨before, stretch, _, horigin.other hclosed hcreates, fun hnil => ?_,
        fun hfile => absurd hfile hother⟩
      exact absurd hnil (List.append_ne_nil_of_left_ne_nil hclosed _)

theorem run_origin {s : PipeLog α}
    (h : (PipeLog.initial logPipeNames path fun _ => none).run passed id events = .ok s) :
    HasOrigin passed logPipeNames path events f s := by
  induction events using List.reverseRecOn generalizing s with
  | nil =>
      cases h
      intro content hcontent
      cases hcontent
  | append_singleton events e ih =>
      obtain ⟨mid, hmid, hstep⟩ := run_snoc h
      obtain ⟨hnames, hpath, -⟩ := run_logger hmid
      cases e with
      | pipeData d => exact (ih hmid).data hnames (run_passes hmid) hstep
      | call c => exact (ih hmid).call hpath (run_passes hmid) hstep

end

/-! ## What becomes of a file -/

section

variable {passed : List Nat → Nat} {write : List α → List β} {s s' : PipeLog β}
  {events stretch : List (PipeLogEvent α)} {f : String}

/-- The logger keeps its pipes and its path. -/
theorem run_fixed (h : s.run passed write events = .ok s') :
    s'.logger.logPipeNames = s.logger.logPipeNames ∧ s'.logger.path = s.logger.path := by
  induction events generalizing s with
  | nil =>
      cases h
      exact ⟨rfl, rfl⟩
  | cons e events ih =>
      obtain ⟨mid, hmid, hrest⟩ := run_cons h
      obtain ⟨hnames, hpath, -⟩ := step_logger hmid
      obtain ⟨hnames', hpath'⟩ := ih hrest
      exact ⟨hnames'.trans hnames, hpath'.trans hpath⟩

/-- A file that is not open stays as it is until it is created again. -/
theorem run_closed (h : s.run passed write events = .ok s') (hclosed : s.file? ≠ some f)
    (hkept : ∀ e ∈ events, e.creates? s.logger.path ≠ some f) : s'.files f = s.files f := by
  induction events generalizing s with
  | nil =>
      cases h
      rfl
  | cons e events ih =>
      obtain ⟨mid, hmid, hrest⟩ := run_cons h
      obtain ⟨he, hmore⟩ := List.forall_mem_cons.mp hkept
      have hpath := (step_logger hmid).2.1
      have hopens := step_file hmid
      have hfile : mid.files f = s.files f := by
        cases e with
        | pipeData d => rw [step_data hmid, if_neg fun hopen => hclosed hopen.1]
        | call c => rw [step_call hmid, if_neg he, PipeLog.closed_of_ne hclosed]
      rw [← hfile]
      refine ih hrest ?_ (by rw [hpath]; exact hmore)
      rw [hopens]
      cases e with
      | pipeData d => exact hclosed
      | call c =>
          rw [opens_call]
          exact he

/-- The sink is told to write what arrives while its file is open. -/
theorem run_stretch {sink : StreamWriter β} (hopen : s.logger.sink = some sink)
    (h : s.run passed write stretch = .ok s') (hstretch : ∀ e ∈ stretch, e.call? = none) :
    s'.logger.sink = some ⟨sink.file, sink.written ++
      (writesOf s.logger.logPipeNames stretch).map write⟩ := by
  induction stretch generalizing s sink with
  | nil =>
      cases h
      rw [hopen]
      exact congrArg some (congrArg (StreamWriter.mk sink.file) (List.append_nil _).symm)
  | cons e stretch ih =>
      obtain ⟨mid, hstep, hrun⟩ := run_cons h
      obtain ⟨he, hrest⟩ := List.forall_mem_cons.mp hstretch
      cases e with
      | call c => cases he
      | pipeData d =>
          obtain ⟨hnames, -, hsink⟩ := step_logger hstep
          rw [PipeLogEvent.sink, hopen] at hsink
          by_cases hlogs : RemotePipeLogger.Logs s.logger.logPipeNames d.pipeName
          · rw [if_pos hlogs] at hsink
            rw [ih hsink hrun hrest, hnames]
            simp only [writesOf, List.filterMap_cons, PipeLogEvent.writes?, if_pos hlogs,
              StreamWriter.write, List.map_cons, List.append_assoc, List.singleton_append]
          · rw [if_neg hlogs] at hsink
            rw [ih hsink hrun hrest, hnames]
            simp only [writesOf, List.filterMap_cons, PipeLogEvent.writes?, if_neg hlogs]

end

end InMemoryFuzzing.Fuzz

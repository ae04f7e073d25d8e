import InMemoryFuzzing.DataLog.Loggers
import InMemoryFuzzing.Fuzz.PipeLines

/-!
# The data loggers during a session

What the loggers are told: the calls of the controller, the data of the generators, and the
packets of the pipes. Whatever is in the directory, a session leaves the error logs alone and
makes the files of the runs that it starts anew (`run_op`).
-/

namespace InMemoryFuzzing.Fuzz

open Base Platform DotNet DataLog Analyzers

inductive LogEvent
  | startingFuzzRun (runPrefix : String) (stackFrameInfo : Option StackFrameInfo)
  | finishedFuzzRun (runPrefix : String)
  | logData (data : List UInt8)
  | pipeData (d : PipeData UInt8)

def LogEvent.call? : LogEvent → Option LoggerCall
  | .startingFuzzRun runPrefix _ => some (.startingFuzzRun runPrefix)
  | .finishedFuzzRun runPrefix => some (.finishedFuzzRun runPrefix)
  | _ => none

/-- The calls of the controller. -/
def logCalls (events : List LogEvent) : List LoggerCall := events.filterMap LogEvent.call?

namespace LoggerRun

def step (passed : List Nat → Nat) (c : LoggerCollection) (fs : FileSystem) :
    LogEvent → Except NetException (LoggerCollection × FileSystem)
  | .startingFuzzRun runPrefix stackFrameInfo =>
      .ok ((c.setPrefix runPrefix).startingFuzzRun stackFrameInfo fs)
  | .finishedFuzzRun _ => c.finishedFuzzRun fs
  | .logData data => .ok (c.logData data fs)
  | .pipeData d => .ok (c.handlerPipeData passed d.pipeName d.data d.index d.offset fs)

def run (passed : List Nat → Nat) (c : LoggerCollection) (fs : FileSystem) :
    List LogEvent → Except NetException (LoggerCollection × FileSystem)
  | [] => .ok (c, fs)
  | e :: events => do
      let (c, fs) ← step passed c fs e
      run passed c fs events

end LoggerRun

/-! ## Between two events -/

/-- The loggers write to their own files, and none of them to an error log. -/
structure LoggersReady (isOpen : Bool) (files : String → List String) (c : LoggerCollection) :
    Prop where
  files : ∀ p, (c.setPrefix p).files = files p
  away : ∀ path p, c.Away (ErrorLog.buildLogFile path p)
  pipe : isOpen = true → ∀ l ∈ c.remotePipeLogger, l.sink.isSome = true

/-- What an event does to the files, whatever they are. -/
structure FileEffect (files : String → List String) (started : List LoggerCall)
    (op : FileSystem → LoggerCollection × FileSystem) : Prop where
  places : Local op
  keeps : ∀ path p, Keeps op (ErrorLog.buildLogFile path p)
  resets : ∀ p, .startingFuzzRun p ∈ started → ∀ f ∈ files p, Resets op f

section

variable {passed : List Nat → Nat} {isOpen : Bool} {files : String → List String}
  {c : LoggerCollection}

/-- A run is started. -/
theorem step_start (h : LoggersReady isOpen files c) (p : String)
    (stackFrameInfo : Option StackFrameInfo) :
    FileEffect files [.startingFuzzRun p] ((c.setPrefix p).startingFuzzRun stackFrameInfo) ∧
      ∀ fs, LoggersReady true files ((c.setPrefix p).startingFuzzRun stackFrameInfo fs).1 := by
  have herror := fun path q => (c.setPrefix p).errorLog_not_mem_files path q
  refine ⟨⟨LoggerCollection.startingFuzzRun_local _ _, fun path q =>
    LoggerCollection.startingFuzzRun_keeps (herror path q)
      (LoggerCollection.setPrefix_away (h.away path q) p) _, ?_⟩, fun fs => ⟨?_, ?_, ?_⟩⟩
  · intro q hq f hf
    cases List.mem_singleton.mp hq
    rw [← h.files p] at hf
    exact LoggerCollection.startingFuzzRun_resets hf _
  · intro q
    rw [LoggerCollection.startingFuzzRun_files, LoggerCollection.setPrefix_setPrefix, h.files]
  · exact fun path q => LoggerCollection.startingFuzzRun_away (herror path q) _ _
  · exact fun _ => LoggerCollection.startingFuzzRun_pipe _ _ _

/-- Every event that is not a finish without a start. -/
theorem step_op (h : LoggersReady isOpen files c) {e : LogEvent} {events : List LogEvent}
    (halternates : Alternates isOpen (logCalls (e :: events))) :
    ∃ op isOpen', (∀ fs, LoggerRun.step passed c fs e = .ok (op fs)) ∧
      FileEffect files e.call?.toList op ∧ (∀ fs, LoggersReady isOpen' files (op fs).1) ∧
        Alternates isOpen' (logCalls events) := by
  cases e with
  | startingFuzzRun p info =>
      obtain ⟨heffect, hready⟩ := step_start h p info
      exact ⟨_, true, fun _ => rfl, heffect, hready, halternates⟩
  | finishedFuzzRun p =>
      obtain ⟨hopen, hrest⟩ := halternates
      obtain ⟨op, hop, hfinishes⟩ := LoggerCollection.finishedFuzzRun_ok (h.pipe hopen)
      refine ⟨op, false, hop, ⟨hfinishes.places, fun path q => hfinishes.keeps _ (h.away path q), ?_⟩,
        fun fs => ⟨?_, fun path q => hfinishes.away fs _, ?_⟩, hrest⟩
      · intro q hq
        cases List.mem_singleton.mp hq
      · intro q
        rw [hfinishes.files, h.files]
      · intro hfalse
        cases hfalse
  | logData data =>
      refine ⟨c.logData data, isOpen, fun _ => rfl, ⟨c.logData_local data, fun path q =>
        LoggerCollection.logData_keeps (h.away path q) data, ?_⟩, fun fs => ⟨?_, ?_, h.pipe⟩,
        halternates⟩
      · intro q hq
        cases hq
      · intro q
        rw [LoggerCollection.logData_files, h.files]
      · exact fun path q => LoggerCollection.logData_away (h.away path q) data fs
  | pipeData d =>
      refine ⟨c.handlerPipeData passed d.pipeName d.data d.index d.offset, isOpen, fun _ => rfl,
        ⟨c.handlerPipeData_local passed _ _ _ _, fun path q =>
          LoggerCollection.handlerPipeData_keeps (h.away path q) passed _ _ _ _, ?_⟩,
        fun fs => ⟨?_, ?_, ?_⟩, halternates⟩
      · intro q hq
        cases hq
      · intro q
        rw [LoggerCollection.handlerPipeData_files, h.files]
      · exact fun path q => LoggerCollection.handlerPipeData_away (h.away path q) passed _ _ _ _ fs
      · exact fun hopen => LoggerCollection.handlerPipeData_pipe (h.pipe hopen) passed _ _ _ _ fs

theorem FileEffect.andThen {first second : List LoggerCall}
    {op next : FileSystem → LoggerCollection × FileSystem} (hop : FileEffect files first op)
    (hnext : FileEffect files second next) :
    FileEffect files (first ++ second) (andThen op fun _ => next) where
  places := hop.places.andThen fun _ => hnext.places
  keeps path p := (hop.keeps path p).andThen fun _ => hnext.keeps path p
  resets p hp f hf := by
    rcases List.mem_append.mp hp with hfirst | hsecond
    · exact (hop.resets p hfirst f hf).andThen hop.places fun _ => hnext.places
    · exact Resets.behind hop.places fun _ => hnext.resets p hsecond f hf

/-- A session leaves the error logs alone and makes the files of its runs anew. -/
theorem run_op (h : LoggersReady isOpen files c) {events : List LogEvent}
    (halternates : Alternates isOpen (logCalls events)) :
    ∃ op, (∀ fs, LoggerRun.run passed c fs events = .ok (op fs)) ∧
      FileEffect files (logCalls events) op := by
  induction events generalizing c isOpen with
  | nil =>
      refine ⟨fun fs => (c, fs), fun _ => rfl, Local.pure c, fun path p => Keeps.pure c _, ?_⟩
      intro p hp
      cases hp
  | cons e events ih =>
      obtain ⟨op, isOpen', hstep, heffect, hready, hrest⟩ := step_op h halternates
      obtain ⟨next, hnext, heffect'⟩ := ih (hready fun _ => none) hrest
      refine ⟨andThen op fun _ => next, fun fs => ?_, ?_⟩
      -- the loggers behind the first event are the same in every directory
      · have hresult : (op fs).1 = (op fun _ => none).1 := heffect.places.result _ _
        rw [LoggerRun.run, hstep]
        show LoggerRun.run passed (op fs).1 (op fs).2 events = _
        rw [hresult, hnext]
        rfl
      · have hcalls : logCalls (e :: events) = e.call?.toList ++ logCalls events := by
          rw [logCalls, List.filterMap_cons]
          cases e.call? <;> rfl
        rw [hcalls]
        exact heffect.andThen heffect'

end

end InMemoryFuzzing.Fuzz

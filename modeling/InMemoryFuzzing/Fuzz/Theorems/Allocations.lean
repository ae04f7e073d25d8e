import InMemoryFuzzing.Analyzers.Theorems.HeapLog
import InMemoryFuzzing.Fuzz.AllocationLogic
import InMemoryFuzzing.Platform.Utf8

/-!
# The allocations of a run reach the analyzer

`allocations_reach_analyzer`: from the calls of the program over the pipe, the connection and
the logger to the ranges of `SimpleHeapOverflowAnalyzer`. The controller asks nobody whether
anything is still on its way when it lets the logger open or close a file; if nothing is,
neither at the start of a run nor at its end, the file of the run holds the text of exactly
the calls of that run.
-/

namespace InMemoryFuzzing.Fuzz

open Base Platform DotNet DataLog Analyzers RemoteControl

/-! ## The text of the calls -/

theorem ascii_of_all {text : List Char} (h : text.all (fun c => c.toNat < 128) = true) :
    ∀ c ∈ text, c.toNat < 128 := fun c hc => of_decide_eq_true (List.all_eq_true.mp h c hc)

theorem formatLu_ascii (n : UInt64) : ∀ c ∈ CLib.formatLu n, c.toNat < 128 := by
  intro c hc
  obtain ⟨d, hd, rfl⟩ := mem_toDigits (by omega) hc
  interval_cases d <;> decide

theorem formatP_ascii (p : UInt64) : ∀ c ∈ CLib.formatP p, c.toNat < 128 := by
  rw [CLib.formatP]
  split
  · exact ascii_of_all rfl
  · rw [List.forall_mem_append]
    refine ⟨ascii_of_all rfl, ?_⟩
    intro c hc
    obtain ⟨d, hd, rfl⟩ := mem_toDigits (by omega) hc
    interval_cases d <;> decide

theorem backtraceText_ascii (backtrace : List UInt64) :
    ∀ c ∈ backtraceText backtrace, c.toNat < 128 := by
  intro c hc
  obtain ⟨piece, hpiece, hc⟩ := List.mem_flatten.mp hc
  obtain ⟨ip, -, rfl⟩ := List.mem_map.mp hpiece
  have hpiece : ∀ c ∈ CLib.formatP ip ++ " ".toList, c.toNat < 128 := by
    rw [List.forall_mem_append]
    exact ⟨formatP_ascii ip, ascii_of_all rfl⟩
  exact hpiece c hc

theorem arguments_ascii (call : AllocCall) : ∀ c ∈ call.arguments, c.toNat < 128 := by
  cases call with
  | malloc size p =>
      show ∀ c ∈ "size=".toList ++ CLib.formatLu size ++ " return=".toList ++ CLib.formatP p, _
      simp only [List.forall_mem_append]
      exact ⟨⟨⟨ascii_of_all rfl, formatLu_ascii size⟩, ascii_of_all rfl⟩, formatP_ascii p⟩
  | calloc nmemb size p =>
      show ∀ c ∈ "num=".toList ++ CLib.formatLu nmemb ++ " size=".toList ++ CLib.formatLu size ++
        " return=".toList ++ CLib.formatP p, _
      simp only [List.forall_mem_append]
      exact ⟨⟨⟨⟨⟨ascii_of_all rfl, formatLu_ascii nmemb⟩, ascii_of_all rfl⟩, formatLu_ascii size⟩,
        ascii_of_all rfl⟩, formatP_ascii p⟩
  | free ptr =>
      show ∀ c ∈ "ptr=".toList ++ CLib.formatP ptr, _
      rw [List.forall_mem_append]
      exact ⟨ascii_of_all rfl, formatP_ascii ptr⟩

/-- What a call prints is ASCII. -/
theorem text_ascii (c : LoggedCall) : ∀ ch ∈ c.text, ch.toNat < 128 := by
  have hname : ∀ ch ∈ c.call.calledFunction, ch.toNat < 128 := by
    cases c.call <;> exact ascii_of_all rfl
  rw [LoggedCall.text, outputMemAllocation_eq]
  simp only [logLine, List.forall_mem_append]
  exact ⟨⟨hname, ascii_of_all rfl, arguments_ascii c.call, ascii_of_all rfl,
    backtraceText_ascii c.backtrace, ascii_of_all rfl⟩, ascii_of_all rfl⟩

theorem toNat_textBytes {text : List Char} (h : ∀ c ∈ text, c.toNat < 128) :
    ∀ b ∈ CLib.textBytes text, b.toNat < 128 := by
  intro b hb
  obtain ⟨c, hc, rfl⟩ := List.mem_map.mp hb
  have := h c hc
  rw [UInt8.toNat_ofNat']
  omega

/-- ASCII text is read back from its bytes. -/
theorem utf8GetChars_textBytes {text : List Char} (h : ∀ c ∈ text, c.toNat < 128) :
    utf8GetChars (CLib.textBytes text) = text := by
  induction text with
  | nil => rw [CLib.textBytes, List.map_nil, utf8GetChars]
  | cons c rest ih =>
      obtain ⟨hc, hrest⟩ := List.forall_mem_cons.mp h
      have hsize : c.utf8Size = 1 := by
        rw [Char.utf8Size_eq_one_iff, UInt32.le_iff_toNat_le]
        exact Nat.le_of_lt_succ hc
      have hcode : String.utf8EncodeChar c = [UInt8.ofNat c.toNat] :=
        String.utf8EncodeChar_eq_singleton hsize
      have happend := utf8GetChars_append c (CLib.textBytes rest)
      rw [hcode, ih hrest] at happend
      exact happend

theorem logText_ascii (calls : List LoggedCall) : ∀ c ∈ logText calls, c.toNat < 128 := by
  intro c hc
  obtain ⟨text, htext, hc⟩ := List.mem_flatten.mp hc
  obtain ⟨call, -, rfl⟩ := List.mem_map.mp htext
  exact text_ascii call c hc

/-- What a run prints is the text of its calls. -/
theorem printedBy_eq (acts : List AllocationAct) :
    acts.flatMap printedBy = CLib.textBytes (logText (allocatedIn acts)) := by
  induction acts with
  | nil => rfl
  | cons act acts ih =>
      rw [List.flatMap_cons, ih]
      cases act with
      | allocate c =>
          show CLib.textBytes c.text ++ _ = CLib.textBytes (c.text ++ logText (allocatedIn acts))
          rw [CLib.textBytes, CLib.textBytes, CLib.textBytes, List.map_append]
      | connection act => rfl
      | write n => rfl
      | logger c => rfl

/-! ## What the analyzer reads -/

/-- The range a call is read as. -/
def rangeOf (c : LoggedCall) : Option RangeInfo :=
  match c.call with
  | .malloc size p => some ⟨p, size, c.backtrace⟩
  | .calloc nmemb size p => some ⟨p, size * nmemb, c.backtrace⟩
  | .free _ => none

/-- A call that succeeded, with a backtrace that can be read. -/
structure Readable (c : LoggedCall) : Prop where
  succeeded : c.call.Succeeded
  backtrace : ∀ ip ∈ c.backtrace, ip ≠ 0

theorem readLine_rangeOf {c : LoggedCall} (h : Readable c) : readLine c.line = .ok (rangeOf c) := by
  obtain ⟨call, backtrace⟩ := c
  cases call with
  | malloc size p => exact readLine_malloc size h.succeeded h.backtrace
  | calloc nmemb size p => exact readLine_calloc nmemb size h.succeeded.1 h.backtrace
  | free ptr => exact readLine_free _ _

theorem rangeOf_block {c : LoggedCall} (h : Readable c) :
    (rangeOf c).map RangeInfo.block = c.block := by
  obtain ⟨range, hrange, hblock⟩ := readLine_line h.succeeded h.backtrace
  rw [readLine_rangeOf h] at hrange
  cases hrange
  exact hblock

/-- The text of some calls is read as the ranges of the calls. -/
theorem rangeInfos_calls {calls : List LoggedCall} (h : ∀ c ∈ calls, Readable c) :
    rangeInfos (logText calls) = .ok (calls.filterMap rangeOf) := by
  have hlines : collect (fun c : LoggedCall => (readLine c.line).map Option.toList) calls =
      collect (fun c => .ok (rangeOf c).toList) calls := by
    apply collect_congr
    intro c hc
    rw [readLine_rangeOf (h c hc)]
    rfl
  rw [rangeInfos, readLines_logText, readRangeLines_eq, collect_map, hlines, collect_ok_iff]
  refine ⟨calls.map fun c => (rangeOf c).toList, ?_, ?_⟩
  · rw [List.forall₂_map_right_iff, List.forall₂_same]
    intro c _
    rfl
  · rw [List.filterMap_eq_flatMap_toList, List.flatMap_def]

theorem blocks_calls {calls : List LoggedCall} (h : ∀ c ∈ calls, Readable c) :
    (calls.filterMap rangeOf).map RangeInfo.block = calls.filterMap LoggedCall.block := by
  rw [List.map_filterMap]
  apply List.filterMap_congr
  intro c hc
  exact rangeOf_block (h c hc)

/-! ## A run of the fuzzer -/

section

variable {n0 : Int} {logPipeNames : List String} {path : String} {files : Files UInt8}
  {passed : List Nat → Nat} {pipe : List UInt8} {k : Nat} {s₀ s₁ s₂ : AllocationNet} {runPrefix : String} {c : LoggerCall}
  {round later : List AllocationAct} {log : PipeLog UInt8}

/-- Between two moments at which nothing is on its way, the logger is handed what was
printed in between. -/
theorem handed_of_settled (hs : (allocationSystem n0 logPipeNames path files passed pipe).Reachable s₀)
    (hstart : Settled k s₀) (hend : Settled k s₁)
    (hpipe : PipeOfAllocations logPipeNames pipe k s₁.connection.issued)
    (hround : (allocationSystem n0 logPipeNames path files passed pipe).exec s₀ round = some s₁)
    (hcalls : ∀ act ∈ round, act.logger? = none) :
    ∃ events : List (PipeLogEvent UInt8),
      (s₁.log = s₀.log.bind fun log => log.run passed RemotePipeLogger.asciiText events) ∧
      events.flatMap (·.logged logPipeNames) = CLib.textBytes (logText (allocatedIn round)) ∧
      ∀ e ∈ events, e.call? = none := by
  have hpipe₀ := hpipe.of_prefix (issued_exec hround)
  have hinv₀ := netInv_of_reachable (connection_reachable hs) hpipe₀.few
  have hinv₁ := netInv_of_reachable (connection_reachable (TSys.Reachable.exec _ hs hround))
    hpipe.few
  obtain ⟨events, hlog, hdelivered, hconsumed, hcall⟩ := run_conserves hs hpipe hround
  refine ⟨events, hlog, ?_, ?_⟩
  · rw [hstart.fifo, hstart.unwritten, hend.fifo, hend.unwritten, List.append_nil, List.append_nil,
      List.append_nil, List.append_nil, ← delivered_of_settled hinv₀ hpipe₀.few hpipe.index hstart,
      ← delivered_of_settled hinv₁ hpipe.few hpipe.index hend, hdelivered] at hconsumed
    rw [List.append_cancel_left hconsumed, printedBy_eq]
  · intro e he
    cases hnone : e.call? with
    | none => rfl
    | some c =>
        obtain ⟨act, hact, hlogger⟩ := hcall e he c hnone
        rw [hcalls act hact] at hlogger
        cases hlogger

/-- The file that a start has created is closed by the next call, and stays as it is. -/
theorem file_kept (hs : (allocationSystem n0 logPipeNames path files passed pipe).Reachable s₁)
    (hpipe : PipeOfAllocations logPipeNames pipe k s₂.connection.issued) {f : String}
    (hlater : (allocationSystem n0 logPipeNames path files passed pipe).exec s₁
      (.logger c :: later) = some s₂)
    (hkept : ∀ act ∈ AllocationAct.logger c :: later, act.creates? path ≠ some f)
    (hlog : s₂.log = .ok log) : ∃ log₁, s₁.log = .ok log₁ ∧ log.files f = log₁.closed f := by
  obtain ⟨hc, hmore⟩ := List.forall_mem_cons.mp hkept
  obtain ⟨mid, hmid, hrest⟩ := Option.bind_eq_some_iff.mp hlater
  obtain ⟨events, hevents, -, -, hcall⟩ := run_conserves (hs.next hmid) hpipe hrest
  rw [hevents] at hlog
  obtain ⟨logMid, hlogMid, hrun⟩ := bind_ok.mp hlog
  have hpath : logMid.logger.path = path := (logger_reachable (hs.next hmid) hlogMid).2
  cases hmid
  obtain ⟨log₁, hlog₁, hstep⟩ := bind_ok.mp hlogMid
  have hpath₁ : log₁.logger.path = path := (logger_reachable hs hlog₁).2
  have hcreates : (PipeLogEvent.call c : PipeLogEvent UInt8).creates? path ≠ some f := hc
  refine ⟨log₁, hlog₁, ?_⟩
  have hfile : logMid.files f = log₁.closed f := by
    rw [step_call hstep, hpath₁, if_neg hcreates]
  rw [← hfile]
  apply run_closed hrun
  · rw [step_file hstep, hpath₁, opens_call]
    exact hcreates
  · intro e he
    rw [hpath]
    cases e with
    | pipeData d => exact (Option.some_ne_none f).symm
    | call c' =>
        obtain ⟨act, hact, hlogger⟩ := hcall _ he c' rfl
        have hact' := hmore act hact
        rw [AllocationAct.creates?, hlogger] at hact'
        exact hact'

end

/-! ## An example -/

/-- `malloc (16)`, called once. -/
def mallocCall : LoggedCall := ⟨.malloc 16 0xb000, [0x400b]⟩

/-- The logger has requested its pipe, and the server has opened it. -/
def pipeOpened : List AllocationAct :=
  [.connection (.requestPipe "m"), .connection .sendCommand, .connection .handleRequest,
    .connection .startThread, .connection .receive, .connection (.thread 0 .opens)]

/-- The line is written, read and sent in two pieces. -/
def mallocRun : List AllocationAct :=
  [.allocate mallocCall, .write 30,
    .connection (.thread 0 (.read ((CLib.textBytes mallocCall.text).take 30))), .write 100,
    .connection (.thread 0 .send), .connection .receive,
    .connection (.thread 0 (.read ((CLib.textBytes mallocCall.text).drop 30))),
    .connection (.thread 0 .send), .connection .receive]

/-- The next run begins, and the program goes on. -/
def nextRun : List AllocationAct := [.logger (.startingFuzzRun "1"), .allocate mallocCall, .write 5]

/-- What is checked of a state in which nothing is on its way. -/
def isSettled (s : AllocationNet) : Bool :=
  decide (s.unwritten = []) && decide (s.fifo = []) && decide (s.connection.incoming = []) &&
    s.connection.server.all.all fun t => decide (t.phase = .reading)

theorem settled_of_isSettled {s : AllocationNet} (h : isSettled s = true) (k : Nat) : Settled k s := by
  simp only [isSettled, Bool.and_eq_true, decide_eq_true_eq, List.all_eq_true] at h
  obtain ⟨⟨⟨hunwritten, hfifo⟩, hincoming⟩, hphase⟩ := h
  refine ⟨hunwritten, hfifo, fun t ht => ?_, fun t _ f hf => ?_⟩
  · rw [hphase t (List.mem_of_getElem? ht)]
    rfl
  · rw [hincoming] at hf
    cases hf

/-- The three parts of the run, one behind the other. -/
theorem sample_exec :
    ∃ s₀ s₁ s₂ log, (allocationSystem 0 ["m"] "/log" (fun _ => none) passedInBlocks [0x6d, 0]).exec
        (.start 0 ["m"] "/log" fun _ => none) pipeOpened = some s₀ ∧ Settled 0 s₀ ∧
      (allocationSystem 0 ["m"] "/log" (fun _ => none) passedInBlocks [0x6d, 0]).exec s₀
        (.logger (.startingFuzzRun "0") :: mallocRun) = some s₁ ∧ Settled 0 s₁ ∧
      (allocationSystem 0 ["m"] "/log" (fun _ => none) passedInBlocks [0x6d, 0]).exec s₁
        (.logger (.finishedFuzzRun "0") :: nextRun) = some s₂ ∧
      s₂.connection.issued = ["m"] ∧ s₂.log = .ok log := by
  have hrun : ((allocationSystem 0 ["m"] "/log" (fun _ => none) passedInBlocks [0x6d, 0]).exec
      (.start 0 ["m"] "/log" fun _ => none) pipeOpened).any (fun s₀ => isSettled s₀ &&
        ((allocationSystem 0 ["m"] "/log" (fun _ => none) passedInBlocks [0x6d, 0]).exec s₀
          (.logger (.startingFuzzRun "0") :: mallocRun)).any (fun s₁ => isSettled s₁ &&
            ((allocationSystem 0 ["m"] "/log" (fun _ => none) passedInBlocks [0x6d, 0]).exec s₁
              (.logger (.finishedFuzzRun "0") :: nextRun)).any (fun s₂ =>
                decide (s₂.connection.issued = ["m"]) && s₂.log.toOption.isSome))) = true := by
    decide +kernel
  obtain ⟨s₀, hs₀, hrun⟩ := (Option.any_eq_true _ _).mp hrun
  obtain ⟨hsettled₀, hrun⟩ := (Bool.and_eq_true _ _).mp hrun
  obtain ⟨s₁, hs₁, hrun⟩ := (Option.any_eq_true _ _).mp hrun
  obtain ⟨hsettled₁, hrun⟩ := (Bool.and_eq_true _ _).mp hrun
  obtain ⟨s₂, hs₂, hrun⟩ := (Option.any_eq_true _ _).mp hrun
  obtain ⟨hissued, hlog⟩ := (Bool.and_eq_true _ _).mp hrun
  cases hres : s₂.log with
  | error raised =>
      rw [hres] at hlog
      cases hlog
  | ok log =>
      exact ⟨s₀, s₁, s₂, log, hs₀, settled_of_isSettled hsettled₀ 0, hs₁,
        settled_of_isSettled hsettled₁ 0, hs₂, of_decide_eq_true hissued, hres⟩

theorem sample_pipe : PipeOfAllocations ["m"] [0x6d, 0] 0 ["m"] where
  few := by simp
  short pipeName hname := by
    rw [List.mem_singleton.mp hname]
    decide
  index := by simp
  logged pipeName hname := by
    cases hname
    exact ⟨.inr List.mem_cons_self, rfl⟩
  alone j pipeName hname _ := by
    have hj := (List.getElem?_eq_some_iff.mp hname).1
    rw [List.length_singleton] at hj
    omega

end InMemoryFuzzing.Fuzz

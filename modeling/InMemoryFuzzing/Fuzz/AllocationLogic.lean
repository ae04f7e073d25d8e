import InMemoryFuzzing.Fuzz.AllocationNet
import Mathlib.Data.List.Infix

/-!
# Nothing printed is lost on the way

What the library has printed is, in this order, what the client has been handed, what is on
its way to the client or in the hands of the thread, what is in the pipe, and what is not
written yet. `run_conserves` states it for a run in which the controller does not call the
logger: what the logger is handed and what is then on the way is what was on the way before
and what was printed.
-/

namespace InMemoryFuzzing.Fuzz

open Base Platform DotNet DataLog Analyzers RemoteControl

/-! ## The thread of the pipe -/

/-- What the thread of the `k`-th request has read. -/
def consumedBy (k : Nat) (s : PipeNet) : List UInt8 :=
  (s.server.all[k]?).elim [] PipeThread.consumed

/-- What the client has been handed for the `k`-th request. -/
def deliveredOf (n0 : Int) (k : Nat) (s : PipeNet) : List UInt8 :=
  ((framesOf s.received (pipeIdOf n0 k)).filterMap PipeFrame.chunk?).flatten

section

variable {n0 : Int} {s s' : PipeNet} {logPipeNames : List String} {pipe : List UInt8} {k : Nat}

/-- A frame with the id of a request is there only if its thread is. -/
theorem framesOf_eq_nil_of_none (h : NetInv n0 s) (hfew : s.issued.length < 65536) (hk : k < 65536)
    (hnone : s.server.all[k]? = none) : framesOf s.received (pipeIdOf n0 k) = [] := by
  apply framesOf_eq_nil
  intro f hf hid
  obtain ⟨t, ht, hft⟩ := h.wire.known f (List.mem_append_left _ hf)
  obtain ⟨j, hj⟩ := List.getElem?_of_mem ht
  have hjlen := (List.getElem?_eq_some_iff.mp hj).1
  have hle := h.handled_le
  have hsame : pipeIdOf n0 j = pipeIdOf n0 k := by
    rw [← h.wire.ids j t hj, ← hft, hid]
  rw [pipeIdOf_inj (by omega) hk hsame, hnone] at hj
  cases hj

/-- When nothing is on the way, all that the thread has read has been handed over. -/
theorem delivered_of_settled {s : AllocationNet} (h : NetInv n0 s.connection)
    (hfew : s.connection.issued.length < 65536) (hk : k < 65536) (hsettled : Settled k s) :
    deliveredOf n0 k s.connection = consumedBy k s.connection := by
  unfold deliveredOf consumedBy
  cases ht : s.connection.server.all[k]? with
  | none => rw [framesOf_eq_nil_of_none h hfew hk ht]; rfl
  | some t =>
      obtain ⟨chunks, hframes, hconsumed⟩ := h.wire.trace k t ht
      have hid : t.pipeId = pipeIdOf n0 k := h.wire.ids k t ht
      -- no frame on the way carries data
      have hincoming : (framesOf s.connection.incoming t.pipeId).filterMap PipeFrame.chunk? = [] := by
        rw [List.filterMap_eq_nil_iff]
        intro f hf
        obtain ⟨hmem, hfid⟩ := List.mem_filter.mp hf
        exact hsettled.incoming t ht f hmem (of_decide_eq_true hfid)
      have hchunks := congrArg (List.filterMap PipeFrame.chunk?) hframes
      rw [framesOf_append, List.filterMap_append, hincoming, List.append_nil, List.filterMap_cons,
        List.filterMap_append, List.filterMap_map] at hchunks
      have hfarewell : (t.phase.farewell t.pipeId).filterMap PipeFrame.chunk? = [] := by
        unfold ThreadPhase.farewell
        split <;> rfl
      rw [hfarewell, List.append_nil] at hchunks
      have hdata : (PipeFrame.chunk? ∘ PipeFrame.data t.pipeId) = some := rfl
      simp only [PipeFrame.chunk?, hdata, List.filterMap_some] at hchunks
      show ((framesOf s.connection.received (pipeIdOf n0 k)).filterMap PipeFrame.chunk?).flatten =
        t.consumed
      rw [hconsumed, hsettled.inHand t ht, List.append_nil, ← hid, hchunks]

/-- The name of the thread of a request. -/
theorem pipeName_of_thread (h : NetInv n0 s) {j : Nat} {t : PipeThread}
    (ht : s.server.all[j]? = some t) :
    ∃ pipeName, s.issued[j]? = some pipeName ∧ t.pipeName = nameOnServer (asciiGetBytes pipeName) := by
  have hj := (List.getElem?_eq_some_iff.mp ht).1
  have hle := h.handled_le
  refine ⟨_, List.getElem?_eq_getElem (by omega), ?_⟩
  have hname := congrArg (fun l => l[j]?) h.requests
  rw [List.getElem?_append_left (by rw [List.length_map]; exact hj), List.getElem?_map, ht,
    List.getElem?_map, List.getElem?_eq_getElem (by omega)] at hname
  exact Option.some.inj hname

/-- Only one thread reads the pipe. -/
theorem reads_pipe_iff (h : NetInv n0 s) (hpipe : PipeOfAllocations logPipeNames pipe k s.issued)
    {j : Nat} {t : PipeThread} (ht : s.server.all[j]? = some t) : t.pipeName = pipe ↔ j = k := by
  obtain ⟨pipeName, hissued, hname⟩ := pipeName_of_thread h ht
  constructor
  · intro hread
    exact hpipe.alone j pipeName hissued (.inr (hname ▸ hread))
  · rintro rfl
    rw [hname, (hpipe.logged pipeName hissued).2]

/-! ## One step of the connection -/

/-- What a thread reads in a step. -/
def readIn : ThreadAct → List UInt8
  | .read chunk => chunk
  | _ => []

theorem consumed_thread {t t' : PipeThread} {act : ThreadAct} {sent : Option PipeFrame}
    (h : t.step act = some (t', sent)) : t'.consumed = t.consumed ++ readIn act := by
  cases act with
  | read chunk =>
      simp only [PipeThread.step] at h
      split at h
      · split at h
        · cases h
          rfl
        · cases h
      · cases h
  | opens =>
      simp only [PipeThread.step] at h
      split at h
      · split at h
        · cases h
          exact (List.append_nil _).symm
        · cases h
      · cases h
  | openFails | readEnds | send =>
      simp only [PipeThread.step] at h
      split at h <;> cases h <;> exact (List.append_nil _).symm

theorem takenFrom_thread {j : Nat} {t : PipeThread} (ht : s.server.threads[j]? = some t)
    (act : ThreadAct) :
    takenFrom pipe s (.thread j act) = if t.pipeName = pipe then readIn act else [] := by
  cases act with
  | read chunk => simp only [takenFrom, ht, readIn]
  | openFails | opens | readEnds | send => exact (ite_self []).symm

/-- A step of a thread adds to what the thread of the pipe has read what it takes out of it. -/
theorem consumed_serve (h : NetInv n0 s) (hpipe : PipeOfAllocations logPipeNames pipe k s.issued)
    {j : Nat} {act : ThreadAct} {sv : Server} {sent : Option PipeFrame}
    (hstep : s.server.step (.thread j act) = some (sv, sent)) :
    (sv.all[k]?).elim [] PipeThread.consumed =
      consumedBy k s ++ takenFrom pipe s (.thread j act) := by
  simp only [Server.step] at hstep
  split at hstep
  · cases hstep
  · rename_i t ht
    obtain ⟨⟨t', sent'⟩, htstep, hres⟩ := Option.map_eq_some_iff.mp hstep
    cases hres
    have hj : j < s.server.threads.length := (List.getElem?_eq_some_iff.mp ht).1
    have hall : s.server.all[j]? = some t := by
      rw [Server.all, List.getElem?_append_left hj, ht]
    have hreads := reads_pipe_iff h hpipe hall
    show (((s.server.threads.set j t') ++ s.server.starting.toList)[k]?).elim [] _ = _
    rw [← List.set_append_left _ _ hj, takenFrom_thread ht]
    show ((s.server.all.set j t')[k]?).elim [] _ = _
    by_cases hjk : j = k
    · subst hjk
      rw [List.getElem?_set_self (List.getElem?_eq_some_iff.mp hall).1, consumedBy, hall,
        if_pos (hreads.mpr rfl)]
      exact consumed_thread htstep
    · rw [List.getElem?_set_ne hjk, if_neg (mt hreads.mp hjk), List.append_nil]
      rfl

/-- The same for any step of the connection. -/
theorem consumed_step (h : NetInv n0 s) (hpipe : PipeOfAllocations logPipeNames pipe k s.issued)
    {act : NetAct} (hstep : s.step act = some s') :
    consumedBy k s' = consumedBy k s ++ takenFrom pipe s act := by
  cases act with
  | thread j act =>
      obtain ⟨⟨sv, sent⟩, hserve, rfl⟩ := Option.map_eq_some_iff.mp hstep
      exact consumed_serve h hpipe hserve
  | startThread =>
      obtain ⟨⟨sv, sent⟩, hserve, rfl⟩ := Option.map_eq_some_iff.mp hstep
      rcases Server.step_all hserve with ⟨data, hact, -⟩ | ⟨-, hall, -⟩ | ⟨j, tact, t, t', hact, -⟩
      · cases hact
      · show (sv.all[k]?).elim [] _ = consumedBy k s ++ []
        rw [hall, List.append_nil]
        rfl
      · cases hact
  | handleRequest =>
      simp only [PipeNet.step] at hstep
      split at hstep
      · obtain ⟨⟨sv, sent⟩, hserve, rfl⟩ := Option.map_eq_some_iff.mp hstep
        rcases Server.step_all hserve with ⟨data, -, hall, -⟩ | ⟨hact, -⟩ | ⟨j, tact, t, t', hact, -⟩
        · -- a new thread has read nothing
          show (sv.all[k]?).elim [] _ = consumedBy k s ++ []
          rw [hall, List.append_nil, consumedBy]
          show ((s.server.all ++ [s.server.newThread data])[k]?).elim [] _ = _
          by_cases hk : k < s.server.all.length
          · rw [List.getElem?_append_left hk]
          · have hnone : s.server.all[k]? = none := List.getElem?_eq_none (by omega)
            rw [List.getElem?_append_right (by omega), hnone]
            cases k - s.server.all.length <;> rfl
        · cases hact
        · cases hact
      · cases hstep
  | requestPipe | sendCommand | receive =>
      -- only the server has threads
      simp only [PipeNet.step] at hstep
      split at hstep
      · cases hstep
        exact (List.append_nil _).symm
      · cases hstep

/-- The events of the client are those of the frames it has dispatched. -/
theorem clientEvents_eq (h : NetInv n0 s) :
    clientEvents s = s.received.map fun f => f.event (nameOf n0 s.issued f.pipeId) := by
  obtain ⟨session, hclient, hbooks⟩ := h.client
  rw [clientEvents, hclient]
  exact hbooks.events

/-- What a step raises is the data of the frame it dispatches, if it dispatches one. -/
theorem raised_step (h : NetInv n0 s) (h' : NetInv n0 s') {act : NetAct}
    (hstep : s.step act = some s') :
    ∃ arrived : List PipeFrame, s'.received = s.received ++ arrived ∧
      raisedData s s' =
        arrived.filterMap fun f => pipeData? (f.event (nameOf n0 s'.issued f.pipeId)) := by
  have hsame : clientEvents s' = clientEvents s → s'.received = s.received →
      ∃ arrived : List PipeFrame, s'.received = s.received ++ arrived ∧ raisedData s s' =
        arrived.filterMap fun f => pipeData? (f.event (nameOf n0 s'.issued f.pipeId)) := by
    intro hevents hreceived
    refine ⟨[], by rw [hreceived, List.append_nil], ?_⟩
    rw [raisedData, hevents, List.drop_length]
    rfl
  rcases PipeNet.step_cases hstep with ⟨pipeName, session, -, hclient, rfl⟩ | ⟨pipeName, -, rfl⟩ |
      ⟨p, rest, -, hserve⟩ | ⟨sact, -, hserve⟩ | ⟨f, rest, session, -, -, rfl⟩
  · refine hsame ?_ rfl
    simp only [clientEvents, hclient]
    rfl
  · exact hsame rfl rfl
  · obtain ⟨⟨sv, sent⟩, -, rfl⟩ := Option.map_eq_some_iff.mp hserve
    exact hsame rfl rfl
  · obtain ⟨⟨sv, sent⟩, -, rfl⟩ := Option.map_eq_some_iff.mp hserve
    exact hsame rfl rfl
  · refine ⟨[f], rfl, ?_⟩
    rw [raisedData, clientEvents_eq h', clientEvents_eq h, List.length_map]
    show ((((s.received ++ [f]).map _).drop _).filterMap pipeData?) = _
    rw [List.map_append, List.drop_left' (List.length_map _)]
    rfl

/-- A frame is logged if it is of the pipe. -/
theorem logs_iff (h : NetInv n0 s) (hpipe : PipeOfAllocations logPipeNames pipe k s.issued)
    {f : PipeFrame} (hf : f ∈ s.received) :
    RemotePipeLogger.Logs logPipeNames (nameOf n0 s.issued f.pipeId) ↔ f.pipeId = pipeIdOf n0 k := by
  have hfew := hpipe.few
  obtain ⟨j, hj, hid⟩ := h.attributed (List.mem_append_left _ hf)
  have hname : s.issued[j]? = some (nameOf n0 s.issued f.pipeId) := by
    rw [nameOf, hid, requestIndex_pipeIdOf n0 (by omega), List.getElem?_eq_getElem hj]
    rfl
  constructor
  · intro hlogs
    rw [hid, hpipe.alone j _ hname (.inl hlogs)]
  · intro hk
    have hjk : j = k := pipeIdOf_inj (by omega) hpipe.index (hid.symm.trans hk)
    subst hjk
    exact (hpipe.logged _ hname).1

theorem logged_frame (logPipeNames : List String) (pipeName : String) (f : PipeFrame) :
    (pipeData? (f.event pipeName)).toList.flatMap (·.logged logPipeNames) =
      if RemotePipeLogger.Logs logPipeNames pipeName then f.chunk?.toList.flatten else [] := by
  cases f with
  | registered i => exact (ite_self []).symm
  | closed i => exact (ite_self []).symm
  | data i chunk =>
      have hpayload : ((CLib.writeInt16T i ++ chunk).drop 2).take chunk.length = chunk := by
        rw [List.drop_left' (CLib.writeInt16T_length i), List.take_length]
      show (if _ then ((CLib.writeInt16T i ++ chunk).drop 2).take chunk.length else []) ++ [] =
        if _ then chunk ++ [] else []
      rw [hpayload, List.append_nil, List.append_nil]

/-- What the logger writes of the frames that have arrived is what they hand over for the pipe. -/
theorem logged_arrived (h : NetInv n0 s) (hpipe : PipeOfAllocations logPipeNames pipe k s.issued)
    {arrived : List PipeFrame} (harrived : ∀ f ∈ arrived, f ∈ s.received) :
    (arrived.filterMap fun f => pipeData? (f.event (nameOf n0 s.issued f.pipeId))).flatMap
        (·.logged logPipeNames) =
      ((framesOf arrived (pipeIdOf n0 k)).filterMap PipeFrame.chunk?).flatten := by
  rw [framesOf, List.filterMap_filter, List.filterMap_eq_flatMap_toList,
    List.filterMap_eq_flatMap_toList, List.flatMap_assoc, ← List.flatMap_id, List.flatMap_assoc]
  apply List.flatMap_congr
  intro f hf
  rw [logged_frame, List.flatMap_id]
  by_cases hid : f.pipeId = pipeIdOf n0 k
  · rw [if_pos ((logs_iff h hpipe (harrived f hf)).mpr hid), if_pos (decide_eq_true hid)]
  · rw [if_neg (mt (logs_iff h hpipe (harrived f hf)).mp hid), decide_eq_false hid]
    rfl

/-- No step forgets a request. -/
theorem issued_step {act : NetAct} (hstep : s.step act = some s') : s.issued <+: s'.issued := by
  rcases PipeNet.step_cases hstep with ⟨pipeName, session, -, -, rfl⟩ | ⟨pipeName, -, rfl⟩ |
      ⟨p, rest, -, hserve⟩ | ⟨sact, -, hserve⟩ | ⟨f, rest, session, -, -, rfl⟩
  · exact List.prefix_append _ _
  · exact List.prefix_refl _
  · obtain ⟨_, -, rfl⟩ := Option.map_eq_some_iff.mp hserve
    exact List.prefix_refl _
  · obtain ⟨_, -, rfl⟩ := Option.map_eq_some_iff.mp hserve
    exact List.prefix_refl _
  · exact List.prefix_refl _

/-- What is said about all requests holds of the first ones. -/
theorem PipeOfAllocations.of_prefix {issued issued' : List String}
    (h : PipeOfAllocations logPipeNames pipe k issued') (hissued : issued <+: issued') :
    PipeOfAllocations logPipeNames pipe k issued := by
  have hget : ∀ (j : Nat) pipeName, issued[j]? = some pipeName → issued'[j]? = some pipeName := by
    obtain ⟨rest, rfl⟩ := hissued
    intro j pipeName hname
    rw [List.getElem?_append_left (List.getElem?_eq_some_iff.mp hname).1, hname]
  exact ⟨Nat.lt_of_le_of_lt hissued.length_le h.few,
    fun pipeName hname => h.short pipeName (hissued.mem hname), h.index,
    fun pipeName hname => h.logged pipeName (hget k pipeName hname),
    fun j pipeName hname => h.alone j pipeName (hget j pipeName hname)⟩

end

/-! ## One step of the whole -/

/-- What a call prints. -/
def printedBy (act : AllocationAct) : List UInt8 :=
  act.allocated?.elim [] fun c => CLib.textBytes c.text

/-- What a step tells the logger. -/
def toldBy (s s' : AllocationNet) : AllocationAct → List (PipeLogEvent UInt8)
  | .connection _ => raisedData s.connection s'.connection
  | .logger c => [.call c]
  | _ => []

/-! ## The logger by itself -/

/-- ASCII text goes into the file as it is. -/
theorem run_ascii {passed : List Nat → Nat} {log : PipeLog UInt8} {events : List (PipeLogEvent UInt8)}
    (hascii : ∀ b ∈ events.flatMap (·.logged log.logger.logPipeNames), b.toNat < 128) :
    log.run passed RemotePipeLogger.asciiText events = log.run passed id events := by
  induction events generalizing log with
  | nil => rfl
  | cons e events ih =>
      rw [List.flatMap_cons, List.forall_mem_append] at hascii
      have hstep : log.step passed RemotePipeLogger.asciiText e = log.step passed id e := by
        cases e with
        | call c => cases c <;> rfl
        | pipeData d =>
            by_cases hlogs : RemotePipeLogger.Logs log.logger.logPipeNames d.pipeName
            · have hdata : ∀ b ∈ d.payload, b.toNat < 128 := by
                have hfirst := hascii.1
                simp only [PipeLogEvent.logged, if_pos hlogs] at hfirst
                exact hfirst
              have hsame : RemotePipeLogger.asciiText d.payload = id d.payload :=
                asciiGetBytes_getString hdata
              simp only [PipeData.payload] at hsame
              simp only [PipeLog.step, RemotePipeLogger.handlerPipeData, hsame]
            · simp only [PipeLog.step, RemotePipeLogger.handlerPipeData, if_neg hlogs]
      rw [PipeLog.run, PipeLog.run, List.foldlM_cons, List.foldlM_cons, hstep]
      cases hmid : log.step passed id e with
      | error raised => rfl
      | ok mid =>
          refine ih ?_
          rw [(step_logger hmid).1]
          exact hascii.2

section

variable {n0 : Int} {logPipeNames : List String} {path : String} {files : Files UInt8}
  {passed : List Nat → Nat} {pipe : List UInt8} {k : Nat} {s s' : AllocationNet}
  {act : AllocationAct}

theorem stepConnection_eq {act : NetAct} (h : s.stepConnection passed pipe act = some s') :
    takenFrom pipe s.connection act <+: s.fifo ∧
      s.connection.step act = some s'.connection ∧ s'.unwritten = s.unwritten ∧
      s'.fifo = s.fifo.drop (takenFrom pipe s.connection act).length ∧
      s'.log = s.log.bind fun log =>
        log.run passed RemotePipeLogger.asciiText (raisedData s.connection s'.connection) := by
  simp only [AllocationNet.stepConnection] at h
  split at h
  · rename_i htaken
    obtain ⟨connection, hstep, rfl⟩ := Option.map_eq_some_iff.mp h
    exact ⟨htaken, hstep, rfl, rfl, rfl⟩
  · cases h

/-- The connection makes a step of its own or none. -/
theorem connection_step (h : s.step passed pipe act = some s') :
    s'.connection = s.connection ∨ ∃ act, s.connection.step act = some s'.connection := by
  cases act with
  | connection act => exact .inr ⟨act, (stepConnection_eq h).2.1⟩
  | allocate c =>
      simp only [AllocationNet.step] at h
      split at h
      · cases h
        exact .inl rfl
      · cases h
  | write n =>
      cases h
      exact .inl rfl
  | logger c =>
      cases h
      exact .inl rfl

theorem connection_reachable
    (h : (allocationSystem n0 logPipeNames path files passed pipe).Reachable s) :
    (pipeSystem n0).Reachable s.connection := by
  induction h with
  | init hinit =>
      cases hinit
      exact .init rfl
  | step _ _ hstep ih =>
      rcases connection_step hstep with hsame | ⟨act, hact⟩
      · rw [hsame]
        exact ih
      · exact ih.next hact

/-- What becomes of the logger. -/
theorem step_log (h : s.step passed pipe act = some s') :
    s'.log = s.log.bind fun log => log.run passed RemotePipeLogger.asciiText (toldBy s s' act) := by
  cases act with
  | connection act => exact (stepConnection_eq h).2.2.2.2
  | allocate c =>
      simp only [AllocationNet.step] at h
      split at h
      · cases h
        cases s.log <;> rfl
      · cases h
  | write n =>
      cases h
      cases s.log <;> rfl
  | logger c =>
      cases h
      cases hlog : s.log with
      | error raised => rfl
      | ok log => exact (PipeLog.run_singleton _ _ _ _).symm

/-- What the library has printed is what the client has been handed and what is on the way. -/
theorem step_conserves (h : NetInv n0 s.connection) (h' : NetInv n0 s'.connection)
    (hpipe : PipeOfAllocations logPipeNames pipe k s'.connection.issued)
    (hstep : s.step passed pipe act = some s') :
    deliveredOf n0 k s'.connection = deliveredOf n0 k s.connection ++
        (toldBy s s' act).flatMap (·.logged logPipeNames) ∧
      consumedBy k s'.connection ++ s'.fifo ++ s'.unwritten =
        consumedBy k s.connection ++ s.fifo ++ s.unwritten ++ printedBy act := by
  cases act with
  | connection act =>
      obtain ⟨htaken, hact, hunwritten, hfifo, -⟩ := stepConnection_eq hstep
      obtain ⟨arrived, hreceived, hraised⟩ := raised_step h h' hact
      constructor
      · rw [toldBy, hraised, logged_arrived h' hpipe fun f hf => by
          rw [hreceived]; exact List.mem_append_right _ hf]
        rw [deliveredOf, hreceived, framesOf_append, List.filterMap_append, List.flatten_append]
        rfl
      · have hconsumed := consumed_step h (hpipe.of_prefix (issued_step hact)) hact
        obtain ⟨rest, hrest⟩ := htaken
        rw [hconsumed, hunwritten, hfifo, ← hrest, List.drop_left]
        simp [printedBy, AllocationAct.allocated?]
  | allocate c =>
      simp only [AllocationNet.step] at hstep
      split at hstep
      · rename_i hnone
        cases hstep
        exact ⟨(List.append_nil _).symm, by rw [hnone, List.append_nil]; rfl⟩
      · cases hstep
  | write n =>
      cases hstep
      refine ⟨(List.append_nil _).symm, ?_⟩
      simp [printedBy, AllocationAct.allocated?, List.append_assoc]
  | logger c =>
      cases hstep
      exact ⟨(List.append_nil _).symm, (List.append_nil _).symm⟩

/-! ## A run -/

theorem issued_exec {acts : List AllocationAct}
    (h : (allocationSystem n0 logPipeNames path files passed pipe).exec s acts = some s') :
    s.connection.issued <+: s'.connection.issued := by
  induction acts generalizing s with
  | nil =>
      cases h
      exact List.prefix_refl _
  | cons act acts ih =>
      obtain ⟨mid, hmid, hrest⟩ := Option.bind_eq_some_iff.mp h
      refine List.IsPrefix.trans ?_ (ih hrest)
      rcases connection_step hmid with hsame | ⟨act, hact⟩
      · rw [hsame]
      · exact issued_step hact

/-- A call the logger is told of is a call of the controller. -/
theorem call_of_toldBy {e : PipeLogEvent UInt8} (he : e ∈ toldBy s s' act) {c : LoggerCall}
    (hc : e.call? = some c) : act.logger? = some c := by
  cases act with
  | connection act =>
      obtain ⟨event, -, hevent⟩ := List.mem_filterMap.mp he
      cases event <;> cases hevent
      cases hc
  | allocate c => cases he
  | write n => cases he
  | logger c' =>
      cases List.mem_singleton.mp he
      exact hc

theorem run_conserves {acts : List AllocationAct}
    (hs : (allocationSystem n0 logPipeNames path files passed pipe).Reachable s)
    (hpipe : PipeOfAllocations logPipeNames pipe k s'.connection.issued)
    (h : (allocationSystem n0 logPipeNames path files passed pipe).exec s acts = some s') :
    ∃ events : List (PipeLogEvent UInt8),
      (s'.log = s.log.bind fun log => log.run passed RemotePipeLogger.asciiText events) ∧
      deliveredOf n0 k s'.connection =
        deliveredOf n0 k s.connection ++ events.flatMap (·.logged logPipeNames) ∧
      consumedBy k s'.connection ++ s'.fifo ++ s'.unwritten =
        consumedBy k s.connection ++ s.fifo ++ s.unwritten ++ acts.flatMap printedBy ∧
      ∀ e ∈ events, ∀ c, e.call? = some c → ∃ act ∈ acts, act.logger? = some c := by
  induction acts generalizing s with
  | nil =>
      cases h
      refine ⟨[], ?_, (List.append_nil _).symm, (List.append_nil _).symm, by simp⟩
      cases s'.log <;> rfl
  | cons act acts ih =>
      have hissued := issued_exec h
      obtain ⟨mid, hmid, hrest⟩ := Option.bind_eq_some_iff.mp h
      have hreach := hs.next hmid
      have hfew := (hpipe.of_prefix hissued).few
      have hpipe' := hpipe.of_prefix (issued_exec hrest)
      obtain ⟨hdelivered, hconsumed⟩ := step_conserves
        (netInv_of_reachable (connection_reachable hs) hfew)
        (netInv_of_reachable (connection_reachable hreach) hpipe'.few) hpipe' hmid
      obtain ⟨events, hlog, hdelivered', hconsumed', hcalls⟩ := ih hreach hrest
      refine ⟨toldBy s mid act ++ events, ?_, ?_, ?_, ?_⟩
      · rw [hlog, step_log hmid]
        cases s.log with
        | error raised => rfl
        | ok log => exact (PipeLog.run_append _ _ _ _ _).symm
      · rw [hdelivered', hdelivered, List.flatMap_append, List.append_assoc]
      · rw [hconsumed', hconsumed, List.flatMap_cons, List.append_assoc _ (printedBy act)]
      · intro e he c hc
        rcases List.mem_append.mp he with hold | hnew
        · exact ⟨act, List.mem_cons_self, call_of_toldBy hold hc⟩
        · obtain ⟨act', hact', hlogger⟩ := hcalls e hnew c hc
          exact ⟨act', List.mem_cons_of_mem _ hact', hlogger⟩

/-- The logger keeps its pipes and its path. -/
theorem logger_reachable (h : (allocationSystem n0 logPipeNames path files passed pipe).Reachable s)
    {log : PipeLog UInt8} (hlog : s.log = .ok log) :
    log.logger.logPipeNames = logPipeNames ∧ log.logger.path = path := by
  induction h generalizing log with
  | init hinit =>
      cases hinit
      cases hlog
      exact ⟨rfl, rfl⟩
  | step _ _ hstep ih =>
      rw [step_log hstep] at hlog
      obtain ⟨before, hbefore, hrun⟩ := bind_ok.mp hlog
      obtain ⟨hnames, hpath⟩ := ih hbefore
      obtain ⟨hnames', hpath'⟩ := run_fixed hrun
      exact ⟨hnames'.trans hnames, hpath'.trans hpath⟩

end

end InMemoryFuzzing.Fuzz

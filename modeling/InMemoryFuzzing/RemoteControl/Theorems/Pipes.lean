import InMemoryFuzzing.RemoteControl.PipeLogic
import Mathlib.Data.List.Forall2

/-!
# What the pipe protocol guarantees

`pipes_agree` — names and ids are matched by position only, and still every event
the client raises carries the name of the request whose id is in the frame, and
the bytes raised for a request are those its thread has read.
-/

namespace InMemoryFuzzing.RemoteControl

open Base Platform DotNet

/-- The bytes a `PipeData` event for the pipe `i` hands over. -/
def PipeEvent.payload? (i : Int) : PipeEvent → Option (List UInt8)
  | .data pipeId _ bytes index offset =>
      if pipeId = i then some ((bytes.drop index).take offset) else none
  | _ => none

/-- All bytes handed over for the pipe `i`. -/
def payload (events : List PipeEvent) (i : Int) : List UInt8 :=
  (events.filterMap (PipeEvent.payload? i)).flatten

/-- An event hands over exactly the bytes of its frame. -/
theorem payload_events (n0 : Int) (issued : List String) (received : List PipeFrame) (i : Int) :
    payload (received.map fun f => f.event (nameOf n0 issued f.pipeId)) i =
      ((framesOf received i).filterMap PipeFrame.chunk?).flatten := by
  have hone : ∀ f : PipeFrame, (f.event (nameOf n0 issued f.pipeId)).payload? i =
      if f.pipeId = i then f.chunk? else none := by
    intro f
    cases f with
    | registered j => simp [PipeFrame.event, PipeEvent.payload?, PipeFrame.chunk?]
    | data j chunk =>
        simp only [PipeFrame.event, PipeEvent.payload?, PipeFrame.pipeId, PipeFrame.chunk?]
        rw [List.drop_left' (CLib.writeInt16T_length j), List.take_length]
        rfl
    | closed j => simp [PipeFrame.event, PipeEvent.payload?, PipeFrame.chunk?]
  rw [payload, List.filterMap_map, framesOf, List.filterMap_filter]
  congr 2
  funext f
  simp only [Function.comp_apply, hone, decide_eq_true_eq]

/-- The last event of a pipe is raised for its last frame. -/
theorem closed_received {n0 : Int} {issued : List String} {received : List PipeFrame} {i : Int}
    {pipeName : String}
    (h : .closed i pipeName ∈ received.map fun f => f.event (nameOf n0 issued f.pipeId)) :
    .closed i ∈ framesOf received i := by
  obtain ⟨f, hf, heq⟩ := List.mem_map.mp h
  cases f with
  | registered j => cases heq
  | data j chunk => cases heq
  | closed j =>
      cases heq
      simpa [framesOf, PipeFrame.pipeId] using hf

/-- Along every interleaving with fewer than 65536 requests, the client never
raises an exception; each frame it dispatches is raised as the event of the same
kind, under the name of the one request whose id it carries; and what is handed
over for a request is a prefix of what its thread has read, and all of it when
the pipe is reported closed. -/
theorem pipes_agree (n0 : Int) (s : PipeNet) (hs : (pipeSystem n0).Reachable s)
    (hfew : s.issued.length < 65536) :
    ∃ session, s.client = .ok session ∧
      List.Forall₂ (fun f e => ∃ k pipeName, s.issued[k]? = some pipeName ∧
        f.pipeId = pipeIdOf n0 k ∧ e = f.event pipeName) s.received session.world.events ∧
      (∀ j k, j < s.issued.length → k < s.issued.length → pipeIdOf n0 j = pipeIdOf n0 k → j = k) ∧
      ∀ (k : Nat) t, s.server.all[k]? = some t →
        t.pipeId = pipeIdOf n0 k ∧
        (∃ pipeName, s.issued[k]? = some pipeName ∧
          t.pipeName = nameOnServer (asciiGetBytes pipeName)) ∧
        payload session.world.events t.pipeId <+: t.consumed ∧
        ((∃ pipeName, .closed t.pipeId pipeName ∈ session.world.events) →
          payload session.world.events t.pipeId = t.consumed) := by
  have h := netInv_of_reachable hs hfew
  obtain ⟨session, hclient, hbooks⟩ := h.client
  refine ⟨session, hclient, ?_, fun j k hj hk => pipeIdOf_inj (by omega) (by omega), ?_⟩
  · rw [hbooks.events, List.forall₂_map_right_iff, List.forall₂_same]
    intro f hf
    obtain ⟨k, hk, hid⟩ := h.attributed (List.mem_append_left _ hf)
    refine ⟨k, _, List.getElem?_eq_getElem hk, hid, ?_⟩
    rw [nameOf, hid, requestIndex_pipeIdOf n0 (by omega), List.getElem?_eq_getElem hk]
    rfl
  · intro k t ht
    have hk : k < s.server.all.length := (List.getElem?_eq_some_iff.mp ht).1
    have hle := h.handled_le
    have htrace := h.wire.trace k t ht
    rw [framesOf_append] at htrace
    obtain ⟨hstarts, hclosed⟩ := htrace.payload (List.prefix_append _ _)
    rw [hbooks.events, payload_events]
    refine ⟨h.wire.ids k t ht, ?_, hstarts, ?_⟩
    · refine ⟨_, List.getElem?_eq_getElem (by omega), ?_⟩
      have hname := congrArg (fun l => l[k]?) h.requests
      rw [List.getElem?_append_left (by rw [List.length_map]; exact hk), List.getElem?_map, ht,
        List.getElem?_map, List.getElem?_eq_getElem (by omega)] at hname
      exact Option.some.inj hname
    · rintro ⟨pipeName, hmem⟩
      exact hclosed (closed_received hmem)

/-- Two requests, on a server whose ids are about to wrap; the frames of the
second pipe overtake those of the first. -/
def overtaking : List NetAct :=
  [.requestPipe "a", .sendCommand, .requestPipe "b", .handleRequest, .startThread, .sendCommand,
    .handleRequest, .startThread, .thread 0 .opens, .thread 1 .opens, .thread 0 (.read [1, 2]),
    .thread 1 (.read [3]), .thread 1 .send, .thread 0 .send, .thread 1 .readEnds, .thread 1 .send,
    .receive, .receive, .receive, .receive, .receive]

theorem pipes_agree_overtaking :
    ∃ s, (pipeSystem 32767).exec (.start 32767) overtaking = some s ∧ s.issued = ["a", "b"] ∧
      s.received = [.registered 32767, .registered (-32768), .data (-32768) [3],
        .data 32767 [1, 2], .closed (-32768)] ∧
      ∃ session, s.client = .ok session ∧ payload session.world.events 32767 <+: [1, 2] := by
  obtain ⟨s, hs, hissued, hreceived, hthread⟩ : ∃ s,
      (pipeSystem 32767).exec (.start 32767) overtaking = some s ∧ s.issued = ["a", "b"] ∧
      s.received = [.registered 32767, .registered (-32768), .data (-32768) [3],
        .data 32767 [1, 2], .closed (-32768)] ∧
      s.server.all[0]? = some ⟨32767, [0x61, 0], .reading, [1, 2]⟩ := ⟨_, rfl, rfl, rfl, rfl⟩
  obtain ⟨session, hclient, _, _, hthreads⟩ := pipes_agree 32767 s
    (TSys.Reachable.exec _ (.init rfl) hs) (by rw [hissued]; decide)
  exact ⟨s, hs, hissued, hreceived, session, hclient, (hthreads 0 _ hthread).2.2.1⟩

end InMemoryFuzzing.RemoteControl

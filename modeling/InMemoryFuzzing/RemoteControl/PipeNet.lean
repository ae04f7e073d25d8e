import InMemoryFuzzing.RemoteControl.PipeClient

/-!
# One client, one connection, many pipes

The client's requests, the server and the two directions of the connection as
one transition system, at the granularity of whole frames. Both directions are
queues; `issued` and `received` are histories (of the calls made and the frames
dispatched) that no step reads.
-/

namespace InMemoryFuzzing.RemoteControl

open Base Platform DotNet

/-- The packet of `RequestPipeCommand`. -/
def requestPipeCommand (pipeName : String) : Packet :=
  ⟨asciiGetBytes "PIPE", asciiGetBytes pipeName⟩

structure PipeNet where
  /-- The names passed to `RemoteRequestPipe` so far. -/
  issued : List String
  /-- The call that has queued its name and not sent its packet yet. -/
  unsent : Option String
  /-- Packets on their way to the server. -/
  requests : List Packet
  server : Server
  /-- Frames on their way to the client. -/
  incoming : List PipeFrame
  /-- Frames dispatched by the client. -/
  received : List PipeFrame
  client : Except (Crash PipeClient) (Session PipeClient)

inductive NetAct
  /-- `RemoteRequestPipe` up to `_requestedPipes.Enqueue`. -/
  | requestPipe (pipeName : String)
  /-- The rest of it: `SendCommand`. -/
  | sendCommand
  /-- The main loop takes the next request. -/
  | handleRequest
  /-- The main loop starts the thread. -/
  | startThread
  | thread (k : Nat) (act : ThreadAct)
  /-- The client dispatches the next frame. -/
  | receive
  deriving DecidableEq, Repr

/-- `_requestedPipes.Enqueue`. -/
def Session.enqueue (s : Session PipeClient) (pipeName : String) : Session PipeClient :=
  { s with world := { s.world with requestedPipes := s.world.requestedPipes ++ [pipeName] } }

/-- A step of the server; what it sends is on its way. -/
def PipeNet.serve (s : PipeNet) (act : ServerAct) : Option PipeNet :=
  (s.server.step act).map fun (server, sent) =>
    { s with server, incoming := s.incoming ++ sent.toList }

/-- One step of the client, the server or a pipe thread. -/
def PipeNet.step (s : PipeNet) : NetAct → Option PipeNet
  | .requestPipe pipeName =>
      match s.unsent, s.client with
      | none, .ok session =>
          some { s with
            issued := s.issued ++ [pipeName], unsent := some pipeName,
            client := .ok (session.enqueue pipeName) }
      | _, _ => none
  | .sendCommand =>
      match s.unsent with
      | some pipeName =>
          some { s with unsent := none, requests := s.requests ++ [requestPipeCommand pipeName] }
      | none => none
  | .handleRequest =>
      match s.requests with
      | p :: rest => { s with requests := rest }.serve (.request p.data)
      | [] => none
  | .startThread => s.serve .start
  | .thread k act => s.serve (.thread k act)
  | .receive =>
      match s.incoming, s.client with
      | f :: rest, .ok session =>
          some { s with
            incoming := rest, received := s.received ++ [f], client := dispatchFrame session f }
      | _, _ => none

/-- What a step does: the client issues a request or sends it, the main loop
handles one, the server goes on by itself, or the client takes a frame. -/
theorem PipeNet.step_cases {s s' : PipeNet} {act : NetAct} (h : s.step act = some s') :
    (∃ pipeName session, s.unsent = none ∧ s.client = .ok session ∧
      s' = { s with
        issued := s.issued ++ [pipeName], unsent := some pipeName,
        client := .ok (session.enqueue pipeName) }) ∨
    (∃ pipeName, s.unsent = some pipeName ∧
      s' = { s with unsent := none, requests := s.requests ++ [requestPipeCommand pipeName] }) ∨
    (∃ p rest, s.requests = p :: rest ∧
      { s with requests := rest }.serve (.request p.data) = some s') ∨
    (∃ sact, (∀ data, sact ≠ .request data) ∧ s.serve sact = some s') ∨
    (∃ f rest session, s.incoming = f :: rest ∧ s.client = .ok session ∧
      s' = { s with
        incoming := rest, received := s.received ++ [f], client := dispatchFrame session f }) := by
  cases act with
  | requestPipe pipeName =>
      simp only [PipeNet.step] at h
      split at h
      · rename_i session hunsent hclient
        exact Or.inl ⟨pipeName, session, hunsent, hclient, (Option.some.inj h).symm⟩
      · cases h
  | sendCommand =>
      simp only [PipeNet.step] at h
      split at h
      · rename_i pipeName hunsent
        exact Or.inr (Or.inl ⟨pipeName, hunsent, (Option.some.inj h).symm⟩)
      · cases h
  | handleRequest =>
      simp only [PipeNet.step] at h
      split at h
      · rename_i p rest hrequests
        exact Or.inr (Or.inr (Or.inl ⟨p, rest, hrequests, h⟩))
      · cases h
  | startThread =>
      exact Or.inr (Or.inr (Or.inr (Or.inl ⟨.start, fun data => by simp, h⟩)))
  | thread k tact =>
      exact Or.inr (Or.inr (Or.inr (Or.inl ⟨.thread k tact, fun data => by simp, h⟩)))
  | receive =>
      simp only [PipeNet.step] at h
      split at h
      · rename_i f rest session hincoming hclient
        exact Or.inr (Or.inr (Or.inr (Or.inr ⟨f, rest, session, hincoming, hclient,
          (Option.some.inj h).symm⟩)))
      · cases h

/-- No step forgets a request. -/
theorem PipeNet.issued_le {s s' : PipeNet} {act : NetAct} (h : s.step act = some s') :
    s.issued.length ≤ s'.issued.length := by
  have hserve : ∀ {s s' : PipeNet} {sact : ServerAct}, s.serve sact = some s' →
      s'.issued = s.issued := by
    intro s s' sact hs
    obtain ⟨_, _, rfl⟩ := Option.map_eq_some_iff.mp hs
    rfl
  rcases step_cases h with ⟨_, _, _, _, rfl⟩ | ⟨_, _, rfl⟩ | ⟨_, _, _, hs⟩ | ⟨_, _, hs⟩ |
      ⟨_, _, _, _, _, rfl⟩
  · simp
  · exact Nat.le_refl _
  · rw [hserve hs]
  · rw [hserve hs]
  · exact Nat.le_refl _

/-- The fresh client on a server whose `next_pipe_id` is `n0`. -/
def PipeNet.start (n0 : Int) : PipeNet where
  issued := []
  unsent := none
  requests := []
  server := ⟨CLib.int16 n0, none, []⟩
  incoming := []
  received := []
  client := .ok ⟨[], [], ⟨[], fun _ => none, []⟩⟩

/-- All interleavings. -/
def pipeSystem (n0 : Int) : TSys PipeNet NetAct where
  init s := s = .start n0
  step := PipeNet.step

/-! ## Ids -/

/-- The id of the `k`-th request. -/
def pipeIdOf (n0 : Int) (k : Nat) : Int := CLib.int16 (n0 + k)

/-- The request an id belongs to. -/
def requestIndex (n0 i : Int) : Nat := ((i - n0) % 65536).toNat

theorem pipeIdOf_isInt16 (n0 : Int) (k : Nat) : IsInt16 (pipeIdOf n0 k) := by
  simp only [IsInt16, pipeIdOf, CLib.int16, Int.bmod]
  split <;> omega

theorem pipeIdOf_succ (n0 : Int) (k : Nat) :
    CLib.int16 (pipeIdOf n0 k + 1) = pipeIdOf n0 (k + 1) := by
  unfold pipeIdOf CLib.int16
  rw [Int.bmod_add_bmod, Nat.cast_succ, add_assoc]

theorem requestIndex_pipeIdOf (n0 : Int) {k : Nat} (hk : k < 65536) :
    requestIndex n0 (pipeIdOf n0 k) = k := by
  simp only [requestIndex, pipeIdOf, CLib.int16, Int.bmod]
  split <;> omega

/-- Fewer than 65537 requests have different ids. -/
theorem pipeIdOf_inj {n0 : Int} {j k : Nat} (hj : j < 65536) (hk : k < 65536)
    (h : pipeIdOf n0 j = pipeIdOf n0 k) : j = k := by
  rw [← requestIndex_pipeIdOf n0 hj, h, requestIndex_pipeIdOf n0 hk]

end InMemoryFuzzing.RemoteControl

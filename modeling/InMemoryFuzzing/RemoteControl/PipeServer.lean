import InMemoryFuzzing.Base.TSys
import InMemoryFuzzing.RemoteControl.Framing

/-!
# Pipe requests on the server

`handler_request_pipe` and `thread_request_pipe`, at the granularity of whole
frames: the socket mutex makes a `send_packet` call one step. The main loop
answers a request with `RPIR` and then starts a thread for it; the threads run
on their own and are never joined.

A thread's record stays in the list when the thread is gone, so that the
`k`-th entry belongs to the `k`-th request.
-/

namespace InMemoryFuzzing.RemoteControl

open Base Platform

/-- The frames the server sends about a pipe. -/
inductive PipeFrame
  /-- `RPIR`: the request got this id. -/
  | registered (pipeId : Int)
  /-- `RPIP`: bytes read from the pipe. -/
  | data (pipeId : Int) (chunk : List UInt8)
  /-- `RPIC`: the pipe was closed. -/
  | closed (pipeId : Int)
  deriving DecidableEq, Repr

/-- The id a frame carries. -/
def PipeFrame.pipeId : PipeFrame → Int
  | .registered pipeId => pipeId
  | .data pipeId _ => pipeId
  | .closed pipeId => pipeId

/-- The arguments of the `send_packet` call. -/
def PipeFrame.packet : PipeFrame → Packet
  | .registered pipeId => ⟨[0x52, 0x50, 0x49, 0x52], CLib.writeInt16T pipeId⟩
  | .data pipeId chunk => ⟨[0x52, 0x50, 0x49, 0x50], CLib.writeInt16T pipeId ++ chunk⟩
  | .closed pipeId => ⟨[0x52, 0x50, 0x49, 0x43], CLib.writeInt16T pipeId⟩

/-! ## A pipe thread -/

/-- Where `thread_request_pipe` is. -/
inductive ThreadPhase
  /-- Before `open` has returned. -/
  | opening
  /-- At `read`. -/
  | reading
  /-- Behind a `read` that returned these bytes. -/
  | sending (chunk : List UInt8)
  /-- Behind the loop, before the `RPIC` frame. -/
  | ending
  /-- Returned without opening the pipe. -/
  | failed
  /-- Behind the `RPIC` frame. -/
  | closed
  deriving DecidableEq, Repr

/-- A `pipe_request_info`, and the bytes its thread has read so far. -/
structure PipeThread where
  pipeId : Int
  /-- A C string, with its terminator. -/
  pipeName : List UInt8
  phase : ThreadPhase
  consumed : List UInt8
  deriving DecidableEq, Repr

/-- What the thread does next; the outcome of the system calls is free. -/
inductive ThreadAct
  /-- No name, or `mkfifo` or `open` fails. -/
  | openFails
  | opens
  /-- `read` returns bytes. -/
  | read (chunk : List UInt8)
  /-- `read` returns 0 or an error. -/
  | readEnds
  | send
  deriving DecidableEq, Repr

/-- One step of `thread_request_pipe`, with the frame it sends. -/
def PipeThread.step (t : PipeThread) : ThreadAct → Option (PipeThread × Option PipeFrame)
  | .openFails =>
      match t.phase with
      | .opening => some ({ t with phase := .failed }, none)
      | _ => none
  | .opens =>
      match t.phase with
      | .opening =>
          if 0 < CLib.strlen t.pipeName then some ({ t with phase := .reading }, none) else none
      | _ => none
  | .read chunk =>
      match t.phase with
      | .reading =>
          if 0 < chunk.length ∧ chunk.length ≤ 1000 then
            some ({ t with phase := .sending chunk, consumed := t.consumed ++ chunk }, none)
          else none
      | _ => none
  | .readEnds =>
      match t.phase with
      | .reading => some ({ t with phase := .ending }, none)
      | _ => none
  | .send =>
      match t.phase with
      | .sending chunk => some ({ t with phase := .reading }, some (.data t.pipeId chunk))
      | .ending => some ({ t with phase := .closed }, some (.closed t.pipeId))
      | _ => none

/-! ## The server -/

/-- `next_pipe_id`, the request whose thread is not started yet, and the threads. -/
structure Server where
  nextPipeId : Int
  starting : Option PipeThread
  threads : List PipeThread
  deriving DecidableEq, Repr

/-- The `pipe_request_info` of a new request. -/
def Server.newThread (sv : Server) (data : List UInt8) : PipeThread where
  pipeId := sv.nextPipeId
  pipeName := CLib.strncpy data.length data ++ [0]
  phase := .opening
  consumed := []

/-- A step of the main loop in `handler_request_pipe`, or of one thread. -/
inductive ServerAct
  /-- Take the next id and send `RPIR`. -/
  | request (data : List UInt8)
  /-- `start_thread`. -/
  | start
  | thread (k : Nat) (act : ThreadAct)
  deriving DecidableEq, Repr

/-- One step of the server, with the frame it sends. -/
def Server.step (sv : Server) : ServerAct → Option (Server × Option PipeFrame)
  | .request data =>
      match sv.starting with
      | none =>
          some (⟨CLib.int16 (sv.nextPipeId + 1), some (sv.newThread data), sv.threads⟩,
            some (.registered sv.nextPipeId))
      -- the main loop is still in the handler
      | some _ => none
  | .start =>
      match sv.starting with
      | none => none
      | some t => some (⟨sv.nextPipeId, none, sv.threads ++ [t]⟩, none)
  | .thread k act =>
      match sv.threads[k]? with
      | none => none
      | some t =>
          (t.step act).map fun (t', sent) =>
            (⟨sv.nextPipeId, sv.starting, sv.threads.set k t'⟩, sent)

/-- All requests so far, in order. -/
def Server.all (sv : Server) : List PipeThread := sv.threads ++ sv.starting.toList

/-! ## What a step can do -/

/-- Everything a thread can do. -/
theorem PipeThread.step_cases {t t' : PipeThread} {act : ThreadAct} {sent : Option PipeFrame}
    (h : t.step act = some (t', sent)) :
    (t.phase = .opening ∧ t' = { t with phase := .failed } ∧ sent = none) ∨
    (t.phase = .opening ∧ 0 < CLib.strlen t.pipeName ∧ t' = { t with phase := .reading } ∧
      sent = none) ∨
    (∃ chunk, t.phase = .reading ∧
      t' = { t with phase := .sending chunk, consumed := t.consumed ++ chunk } ∧ sent = none) ∨
    (t.phase = .reading ∧ t' = { t with phase := .ending } ∧ sent = none) ∨
    (∃ chunk, t.phase = .sending chunk ∧ t' = { t with phase := .reading } ∧
      sent = some (.data t.pipeId chunk)) ∨
    (t.phase = .ending ∧ t' = { t with phase := .closed } ∧ sent = some (.closed t.pipeId)) := by
  cases act with
  | openFails =>
      simp only [PipeThread.step] at h
      split at h
      · cases h
        exact Or.inl ⟨‹_›, rfl, rfl⟩
      · cases h
  | opens =>
      simp only [PipeThread.step] at h
      split at h
      · split at h
        · cases h
          exact Or.inr (Or.inl ⟨‹_›, ‹_›, rfl, rfl⟩)
        · cases h
      · cases h
  | read chunk =>
      simp only [PipeThread.step] at h
      split at h
      · split at h
        · cases h
          exact Or.inr (Or.inr (Or.inl ⟨chunk, ‹_›, rfl, rfl⟩))
        · cases h
      · cases h
  | readEnds =>
      simp only [PipeThread.step] at h
      split at h
      · cases h
        exact Or.inr (Or.inr (Or.inr (Or.inl ⟨‹_›, rfl, rfl⟩)))
      · cases h
  | send =>
      simp only [PipeThread.step] at h
      split at h
      · cases h
        exact Or.inr (Or.inr (Or.inr (Or.inr (Or.inl ⟨_, ‹_›, rfl, rfl⟩))))
      · cases h
        exact Or.inr (Or.inr (Or.inr (Or.inr (Or.inr ⟨‹_›, rfl, rfl⟩))))
      · cases h

/-- A thread keeps its id and its name, and sends only under its id. -/
theorem PipeThread.step_frame {t t' : PipeThread} {act : ThreadAct} {sent : Option PipeFrame}
    (h : t.step act = some (t', sent)) :
    t'.pipeId = t.pipeId ∧ t'.pipeName = t.pipeName ∧ ∀ f ∈ sent, f.pipeId = t.pipeId := by
  rcases step_cases h with ⟨_, rfl, rfl⟩ | ⟨_, _, rfl, rfl⟩ | ⟨_, _, rfl, rfl⟩ | ⟨_, rfl, rfl⟩ |
      ⟨_, _, rfl, rfl⟩ | ⟨_, rfl, rfl⟩
  · exact ⟨rfl, rfl, by simp⟩
  · exact ⟨rfl, rfl, by simp⟩
  · exact ⟨rfl, rfl, by simp⟩
  · exact ⟨rfl, rfl, by simp⟩
  · exact ⟨rfl, rfl, by simp [PipeFrame.pipeId]⟩
  · exact ⟨rfl, rfl, by simp [PipeFrame.pipeId]⟩

/-- What a step of the server does to the list of requests. -/
theorem Server.step_all {sv sv' : Server} {act : ServerAct} {sent : Option PipeFrame}
    (h : sv.step act = some (sv', sent)) :
    (∃ data, act = .request data ∧ sv'.all = sv.all ++ [sv.newThread data] ∧
      sv'.nextPipeId = CLib.int16 (sv.nextPipeId + 1) ∧
      sent = some (.registered sv.nextPipeId)) ∨
    (act = .start ∧ sv'.all = sv.all ∧ sv'.nextPipeId = sv.nextPipeId ∧ sent = none) ∨
    (∃ k tact t t', act = .thread k tact ∧ sv.all[k]? = some t ∧ t.step tact = some (t', sent) ∧
      sv'.all = sv.all.set k t' ∧ sv'.nextPipeId = sv.nextPipeId) := by
  cases act with
  | request data =>
      simp only [Server.step] at h
      split at h
      · rename_i hstart
        cases h
        exact Or.inl ⟨data, rfl, by simp [Server.all, hstart], rfl, rfl⟩
      · cases h
  | start =>
      simp only [Server.step] at h
      split at h
      · cases h
      · rename_i t hstart
        cases h
        exact Or.inr (Or.inl ⟨rfl, by simp [Server.all, hstart], rfl, rfl⟩)
  | thread k tact =>
      simp only [Server.step] at h
      split at h
      · cases h
      · rename_i t ht
        obtain ⟨⟨t', sent'⟩, hstep, hres⟩ := Option.map_eq_some_iff.mp h
        cases hres
        have hk : k < sv.threads.length := (List.getElem?_eq_some_iff.mp ht).1
        refine Or.inr (Or.inr ⟨k, tact, t, t', rfl, ?_, hstep, ?_, rfl⟩)
        · rw [Server.all, List.getElem?_append_left hk, ht]
        · simp only [Server.all]
          rw [List.set_append_left _ _ hk]

end InMemoryFuzzing.RemoteControl

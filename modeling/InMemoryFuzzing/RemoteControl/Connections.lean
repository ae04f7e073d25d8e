import InMemoryFuzzing.RemoteControl.PipeServer
import Mathlib.Logic.Function.Basic

/-!
# Connections one after the other

The `accept` loop of `main` over the pipe server. There is one `connection_fd`,
overwritten by every `accept`, and a pipe thread sends to whatever it holds at
that moment; the threads of a connection are not stopped when it is closed.

`idle_isolated` is the invariant behind isolation: it needs every `accept` to
find no live thread. `live_thread_leaks` shows that it needs no less.
-/

namespace InMemoryFuzzing.RemoteControl

open Base Platform

/-- The server and its connections; connection `c` is the `c`-th accepted. -/
structure Connections where
  server : Server
  /-- Connections accepted so far; `connection_fd` is the last of them. -/
  accepted : Nat
  /-- Between `accept` and `close`. -/
  serving : Bool
  /-- Ids given to the pipes requested on a connection. -/
  requested : Nat → List Int
  /-- Frames written to a connection. -/
  written : Nat → List PipeFrame

inductive ConnAct
  | accept
  /-- `receive_packet_loop` returns and the descriptor is closed. -/
  | close
  | server (act : ServerAct)
  deriving DecidableEq, Repr

/-- The ids requested, after a step of the server. -/
def Connections.requestedAfter (s : Connections) : ServerAct → Nat → List Int
  | .request _ =>
      Function.update s.requested s.accepted (s.requested s.accepted ++ [s.server.nextPipeId])
  | _ => s.requested

/-- The frames written, after a step that sends `sent` to `connection_fd`; a
write to a closed descriptor fails and goes unnoticed. -/
def Connections.writtenAfter (s : Connections) (sent : Option PipeFrame) :
    Nat → List PipeFrame :=
  if s.serving then
    Function.update s.written s.accepted (s.written s.accepted ++ sent.toList)
  else s.written

/-- Requests are read only while a connection is served. -/
def Connections.Admits (s : Connections) : ServerAct → Prop
  | .request _ => s.serving = true
  | _ => True

instance (s : Connections) (act : ServerAct) : Decidable (s.Admits act) :=
  match act with
  | .request _ => inferInstanceAs (Decidable (s.serving = true))
  | .start => inferInstanceAs (Decidable True)
  | .thread _ _ => inferInstanceAs (Decidable True)

/-- One step of `main` or of a pipe thread. -/
def Connections.step (s : Connections) : ConnAct → Option Connections
  | .accept =>
      if s.serving = false ∧ s.server.starting = none then
        some { s with accepted := s.accepted + 1, serving := true }
      else none
  | .close =>
      if s.serving = true ∧ s.server.starting = none then some { s with serving := false }
      else none
  | .server act =>
      if s.Admits act then
        (s.server.step act).map fun (server, sent) =>
          ⟨server, s.accepted, s.serving, s.requestedAfter act, s.writtenAfter sent⟩
      else none

/-- What a step does: `main` accepts or closes, or the server takes a step. -/
theorem Connections.step_cases {s s' : Connections} {act : ConnAct} (h : s.step act = some s') :
    (act = .accept ∧ s.serving = false ∧ s.server.starting = none ∧
      s' = { s with accepted := s.accepted + 1, serving := true }) ∨
    (act = .close ∧ s.serving = true ∧ s.server.starting = none ∧
      s' = { s with serving := false }) ∨
    (∃ sact server sent, act = .server sact ∧ s.Admits sact ∧
      s.server.step sact = some (server, sent) ∧
      s' = ⟨server, s.accepted, s.serving, s.requestedAfter sact, s.writtenAfter sent⟩) := by
  cases act with
  | accept =>
      simp only [Connections.step] at h
      split at h
      · rename_i hguard
        cases h
        exact Or.inl ⟨rfl, hguard.1, hguard.2, rfl⟩
      · cases h
  | close =>
      simp only [Connections.step] at h
      split at h
      · rename_i hguard
        cases h
        exact Or.inr (Or.inl ⟨rfl, hguard.1, hguard.2, rfl⟩)
      · cases h
  | server sact =>
      simp only [Connections.step] at h
      split at h
      · rename_i hadmits
        obtain ⟨⟨server, sent⟩, hsv, rfl⟩ := Option.map_eq_some_iff.mp h
        exact Or.inr (Or.inr ⟨sact, server, sent, rfl, hadmits, hsv, rfl⟩)
      · cases h

/-- The server before its first connection. -/
def Connections.start : Connections := ⟨⟨0, none, []⟩, 0, false, fun _ => [], fun _ => []⟩

/-- All runs of the server. -/
def connectionSystem : TSys Connections ConnAct where
  init s := s = .start
  step := Connections.step

/-! ## Live threads -/

/-- A thread that may still send a frame. -/
def PipeThread.Live (t : PipeThread) : Prop :=
  match t.phase with
  | .opening => 0 < CLib.strlen t.pipeName
  | .reading | .sending _ | .ending => True
  | .failed | .closed => False

instance (t : PipeThread) : Decidable t.Live := by
  unfold PipeThread.Live
  cases t.phase <;> infer_instance

/-- A thread that is live after a step was live before, and so was one that
sends. -/
theorem PipeThread.live_of_step {t t' : PipeThread} {act : ThreadAct} {sent : Option PipeFrame}
    (h : t.step act = some (t', sent)) : (t'.Live → t.Live) ∧ (∀ f ∈ sent, t.Live) := by
  rcases step_cases h with ⟨hp, rfl, rfl⟩ | ⟨hp, hn, rfl, rfl⟩ | ⟨_, hp, rfl, rfl⟩ |
      ⟨hp, rfl, rfl⟩ | ⟨_, hp, rfl, rfl⟩ | ⟨hp, rfl, rfl⟩
  · exact ⟨fun hl => absurd hl (by simp [Live]), by simp⟩
  · exact ⟨fun _ => by simpa [Live, hp] using hn, by simp⟩
  · exact ⟨fun _ => by simp [Live, hp], by simp⟩
  · exact ⟨fun _ => by simp [Live, hp], by simp⟩
  · exact ⟨fun _ => by simp [Live, hp], fun _ _ => by simp [Live, hp]⟩
  · exact ⟨fun hl => absurd hl (by simp [Live]), fun _ _ => by simp [Live, hp]⟩

/-! ## Isolation -/

/-- Every frame on a connection is about a pipe requested on it. -/
def Connections.Isolated (s : Connections) : Prop :=
  ∀ c, ∀ f ∈ s.written c, f.pipeId ∈ s.requested c

/-- An `accept` finds no live thread. -/
def acceptsIdle (s : Connections) (act : ConnAct) : Prop :=
  act = .accept → ∀ t ∈ s.server.threads, ¬ t.Live

/-- The live threads belong to the connection being served. -/
structure IdleInv (s : Connections) : Prop where
  isolated : s.Isolated
  live_requested : s.serving = true → ∀ t ∈ s.server.all, t.Live →
    t.pipeId ∈ s.requested s.accepted

theorem Connections.mem_requestedAfter {s : Connections} {act : ServerAct} {c : Nat} {i : Int}
    (h : i ∈ s.requested c) : i ∈ s.requestedAfter act c := by
  cases act with
  | request data =>
      by_cases hc : c = s.accepted
      · subst hc
        simp [requestedAfter, h]
      · simpa [requestedAfter, Function.update_of_ne hc] using h
  | start => exact h
  | thread k tact => exact h

/-- A frame written by a step was there before or was sent by the step to the
connection being served. -/
theorem Connections.mem_writtenAfter {s : Connections} {sent : Option PipeFrame} {c : Nat}
    {f : PipeFrame} (h : f ∈ s.writtenAfter sent c) :
    f ∈ s.written c ∨ (s.serving = true ∧ c = s.accepted ∧ f ∈ sent) := by
  unfold writtenAfter at h
  split at h
  · rename_i hserving
    by_cases hc : c = s.accepted
    · subst hc
      rw [Function.update_self, List.mem_append, Option.mem_toList] at h
      rcases h with h | h
      · exact Or.inl h
      · exact Or.inr ⟨hserving, rfl, h⟩
    · rw [Function.update_of_ne hc] at h
      exact Or.inl h
  · exact Or.inl h

/-- One step of the server: what it sends, and what it leaves live, has been
requested on the connection being served. -/
theorem IdleInv.server_step {s : Connections} {act : ServerAct} {server : Server}
    {sent : Option PipeFrame} (h : IdleInv s) (hstep : s.server.step act = some (server, sent))
    (hserving : s.serving = true) :
    (∀ f ∈ sent, f.pipeId ∈ s.requestedAfter act s.accepted) ∧
      ∀ t ∈ server.all, t.Live → t.pipeId ∈ s.requestedAfter act s.accepted := by
  have hlive := h.live_requested hserving
  rcases Server.step_all hstep with ⟨data, rfl, hall, _, rfl⟩ | ⟨rfl, hall, _, rfl⟩ |
      ⟨k, tact, t, t', rfl, ht, htstep, hall, _⟩
  · have hnew : s.server.nextPipeId ∈ s.requestedAfter (.request data) s.accepted := by
      simp [Connections.requestedAfter]
    refine ⟨?_, ?_⟩
    · intro f hf
      cases hf
      exact hnew
    · intro t ht hl
      rw [hall, List.mem_append, List.mem_singleton] at ht
      rcases ht with ht | rfl
      · exact Connections.mem_requestedAfter (hlive t ht hl)
      · exact hnew
  · refine ⟨fun f hf => (by cases hf), ?_⟩
    intro t ht hl
    rw [hall] at ht
    exact hlive t ht hl
  · obtain ⟨hid, _, hsent⟩ := PipeThread.step_frame htstep
    obtain ⟨hback, hsend⟩ := PipeThread.live_of_step htstep
    have hmem : t ∈ s.server.all := List.mem_of_getElem? ht
    refine ⟨?_, ?_⟩
    · intro f hf
      rw [hsent f hf]
      exact hlive t hmem (hsend f hf)
    · intro u hu hl
      rw [hall] at hu
      rcases List.mem_or_eq_of_mem_set hu with hu | rfl
      · exact hlive u hu hl
      · rw [hid]
        exact hlive t hmem (hback hl)

/-- The invariant, along runs in which every `accept` is idle. -/
theorem idle_isolated : connectionSystem.Inductive acceptsIdle IdleInv where
  init := by
    rintro s rfl
    exact ⟨fun c f hf => (by cases hf), fun hserving => (by cases hserving)⟩
  step := by
    intro s act s' h hok hstep
    rcases Connections.step_cases hstep with ⟨rfl, _, hnone, rfl⟩ | ⟨_, _, _, rfl⟩ |
        ⟨sact, server, sent, _, _, hsv, rfl⟩
    · refine ⟨h.isolated, ?_⟩
      intro _ t ht hl
      simp only [Server.all, hnone, Option.toList_none, List.append_nil] at ht
      exact absurd hl (hok rfl t ht)
    · exact ⟨h.isolated, fun hserving => by cases hserving⟩
    · refine ⟨?_, fun hserving => (h.server_step hsv hserving).2⟩
      intro c f hf
      rcases Connections.mem_writtenAfter hf with hold | ⟨hserving, rfl, hsent⟩
      · exact Connections.mem_requestedAfter (h.isolated c f hold)
      · exact (h.server_step hsv hserving).1 f hsent

/-! ## A live thread leaks -/

/-- Some schedule of the steps to come breaks isolation. -/
def Connections.Leaks (s : Connections) : Prop :=
  ∃ acts s', connectionSystem.exec s acts = some s' ∧ ¬ s'.Isolated

theorem Connections.Leaks.cons {s s₁ : Connections} {act : ConnAct}
    (hstep : s.step act = some s₁) : s₁.Leaks → s.Leaks := by
  rintro ⟨acts, s', hexec, hleak⟩
  refine ⟨act :: acts, s', ?_, hleak⟩
  rw [TSys.exec, show connectionSystem.step s act = some s₁ from hstep]
  exact hexec

/-- A thread step as a step of the whole server. -/
theorem Connections.thread_step {s : Connections} {k : Nat} {t t' : PipeThread}
    {act : ThreadAct} {sent : Option PipeFrame} (ht : s.server.threads[k]? = some t)
    (hstep : t.step act = some (t', sent)) :
    s.step (.server (.thread k act)) =
      some ⟨⟨s.server.nextPipeId, s.server.starting, s.server.threads.set k t'⟩, s.accepted,
        s.serving, s.requested, s.writtenAfter sent⟩ := by
  have hadmit : s.Admits (.thread k act) := trivial
  rw [Connections.step, if_pos hadmit, Server.step, ht]
  simp only [hstep, Option.map_some]
  rfl

/-- Thread `k` is `t`, on a connection on which its pipe was not requested. -/
structure Stranger (s : Connections) (k : Nat) (t : PipeThread) : Prop where
  serving : s.serving = true
  thread : s.server.threads[k]? = some t
  foreign : t.pipeId ∉ s.requested s.accepted

/-- A step that sends nothing keeps the thread a stranger. -/
theorem Stranger.quiet {s : Connections} {k : Nat} {t t' : PipeThread} {act : ThreadAct}
    (h : Stranger s k t) (hstep : t.step act = some (t', none)) :
    ∃ s', s.step (.server (.thread k act)) = some s' ∧ Stranger s' k t' := by
  have hk : k < s.server.threads.length := (List.getElem?_eq_some_iff.mp h.thread).1
  refine ⟨_, Connections.thread_step h.thread hstep, h.serving, List.getElem?_set_self hk, ?_⟩
  rw [(PipeThread.step_frame hstep).1]
  exact h.foreign

/-- A step that sends something leaks. -/
theorem Stranger.leak {s : Connections} {k : Nat} {t t' : PipeThread} {act : ThreadAct}
    {f : PipeFrame} (h : Stranger s k t) (hstep : t.step act = some (t', some f)) :
    s.Leaks := by
  refine Connections.Leaks.cons (Connections.thread_step h.thread hstep) ⟨[], _, rfl, ?_⟩
  intro hiso
  have hid : f.pipeId = t.pipeId := (PipeThread.step_frame hstep).2.2 f rfl
  refine h.foreign (hid ▸ hiso s.accepted f ?_)
  simp [Connections.writtenAfter, h.serving]

/-- A live stranger can be scheduled until it leaks. -/
theorem Stranger.leaks {s : Connections} {k : Nat} {t : PipeThread} (h : Stranger s k t)
    (hlive : t.Live) : s.Leaks := by
  have hending : ∀ {s t}, Stranger s k t → t.phase = .ending → s.Leaks := by
    intro s t h hp
    exact h.leak (show t.step .send = some ({ t with phase := .closed },
      some (.closed t.pipeId)) by
      simp only [PipeThread.step, hp])
  have hreading : ∀ {s t}, Stranger s k t → t.phase = .reading → s.Leaks := by
    intro s t h hp
    obtain ⟨s₁, hs₁, hstill⟩ :=
      h.quiet (show t.step .readEnds = some ({ t with phase := .ending }, none) by
        simp only [PipeThread.step, hp])
    exact Connections.Leaks.cons hs₁ (hending hstill rfl)
  unfold PipeThread.Live at hlive
  cases hp : t.phase with
  | opening =>
      rw [hp] at hlive
      obtain ⟨s₁, hs₁, hstill⟩ :=
        h.quiet (show t.step .opens = some ({ t with phase := .reading }, none) by
          simp only [PipeThread.step, hp, if_pos hlive])
      exact Connections.Leaks.cons hs₁ (hreading hstill rfl)
  | reading => exact hreading h hp
  | sending chunk =>
      exact h.leak (show t.step .send = some ({ t with phase := .reading },
        some (.data t.pipeId chunk)) by
        simp only [PipeThread.step, hp])
  | ending => exact hending h hp
  | failed => rw [hp] at hlive; exact hlive.elim
  | closed => rw [hp] at hlive; exact hlive.elim

/-- Nothing has been requested on a connection that is still to come. -/
theorem requested_fresh {s : Connections} (hs : connectionSystem.Reachable s) :
    ∀ c, s.accepted < c → s.requested c = [] := by
  refine TSys.Inductive.invariant (P := fun s => ∀ c, s.accepted < c → s.requested c = [])
    ⟨?_, ?_⟩ s hs
  · rintro s rfl c _
    rfl
  · intro s act s' h _ hstep c hc
    rcases Connections.step_cases hstep with ⟨_, _, _, rfl⟩ | ⟨_, _, _, rfl⟩ |
        ⟨sact, server, sent, _, _, _, rfl⟩
    · exact h c (Nat.lt_of_succ_lt hc)
    · exact h c hc
    · have hne : c ≠ s.accepted := Nat.ne_of_gt hc
      cases sact with
      | request data => simpa [Connections.requestedAfter, Function.update_of_ne hne] using h c hc
      | start => exact h c hc
      | thread k tact => exact h c hc

/-- An `accept` that finds a live thread can be followed by a leak. -/
theorem live_thread_leaks {s s' : Connections} (hs : connectionSystem.Reachable s)
    (hstep : s.step .accept = some s') {t : PipeThread} (ht : t ∈ s.server.threads)
    (hlive : t.Live) : s'.Leaks := by
  obtain ⟨k, hk⟩ := List.getElem?_of_mem ht
  rcases Connections.step_cases hstep with ⟨_, _, _, rfl⟩ | ⟨hact, _⟩ | ⟨_, _, _, hact, _⟩
  · refine Stranger.leaks (k := k) ⟨rfl, hk, ?_⟩ hlive
    show t.pipeId ∉ s.requested (s.accepted + 1)
    rw [requested_fresh hs _ (Nat.lt_succ_self _)]
    exact List.not_mem_nil
  · cases hact
  · cases hact

end InMemoryFuzzing.RemoteControl

import InMemoryFuzzing.RemoteControl.Connections

/-!
# Isolation of connections

`connections_isolated` — frames stay on the connection that requested their pipe
in every run in which `accept` returns only when no pipe thread is live; an
`accept` that finds one can be followed by a frame for the wrong client.
-/

namespace InMemoryFuzzing.RemoteControl

open Base Platform

/-- Isolation holds in every state of a run whose `accept`s find no live thread,
and a run that breaks this rule can be continued so as to break isolation. -/
theorem connections_isolated (s : Connections) :
    (connectionSystem.ReachableBy acceptsIdle s → s.Isolated) ∧
    (connectionSystem.Reachable s → ∀ s', s.step .accept = some s' →
      ¬ acceptsIdle s .accept → s'.Leaks) := by
  refine ⟨fun hs => (idle_isolated.invariant s hs).isolated, ?_⟩
  intro hs s' hstep hbusy
  unfold acceptsIdle at hbusy
  push Not at hbusy
  obtain ⟨_, t, ht, hlive⟩ := hbusy
  exact live_thread_leaks hs hstep ht hlive

/-- Serve one client that requests the pipe `a`; its thread is started. -/
def firstClient : List ConnAct := [.accept, .server (.request [0x61]), .server .start]

/-- Thread 0 opens its pipe, finds it closed and reports that. -/
def threadEnds : List ConnAct :=
  [.server (.thread 0 .opens), .server (.thread 0 .readEnds), .server (.thread 0 .send)]

/-- The thread ends before the second client is accepted: its frame went to the
first one. -/
theorem connections_isolated_two_clients :
    ∃ s, connectionSystem.exec .start (firstClient ++ threadEnds ++ [.close, .accept]) = some s ∧
      s.written 1 = [.registered 0, .closed 0] ∧ s.Isolated := by
  obtain ⟨s₁, hs₁, hempty⟩ : ∃ s₁, connectionSystem.step .start .accept = some s₁ ∧
    s₁.server.threads = [] := ⟨_, rfl, rfl⟩
  obtain ⟨s₂, hs₂, hgone⟩ : ∃ s₂, connectionSystem.exec s₁
      (firstClient.tail ++ threadEnds ++ [.close]) = some s₂ ∧
      s₂.server.threads = [⟨0, [0x61, 0], .closed, []⟩] := by
    cases hs₁
    exact ⟨_, rfl, rfl⟩
  have hreach₁ : connectionSystem.ReachableBy acceptsIdle s₁ := by
    refine TSys.ReachableBy.step (.init rfl) ?_ hs₁
    intro _ t ht
    cases ht
  have hreach₂ : connectionSystem.ReachableBy acceptsIdle s₂ := by
    refine TSys.ReachableBy.exec _ hreach₁ ?_ hs₂
    intro a ha s heq
    subst heq
    exact absurd ha (by decide)
  obtain ⟨s₃, hs₃, hwritten⟩ : ∃ s₃, connectionSystem.step s₂ .accept = some s₃ ∧
      s₃.written 1 = [.registered 0, .closed 0] := by
    cases hs₁
    cases hs₂
    exact ⟨_, rfl, rfl⟩
  have hreach₃ : connectionSystem.ReachableBy acceptsIdle s₃ := by
    refine hreach₂.step ?_ hs₃
    intro _ t ht
    rw [hgone, List.mem_singleton] at ht
    subst ht
    decide
  refine ⟨s₃, ?_, hwritten, (connections_isolated s₃).1 hreach₃⟩
  cases hs₁
  cases hs₂
  exact hs₃

/-- The thread is still at `open` when the second client is accepted: its `RPIC`
goes to a client that has requested nothing. -/
theorem connections_not_isolated :
    ∃ s, connectionSystem.exec .start (firstClient ++ [.close, .accept] ++ threadEnds) = some s ∧
      connectionSystem.Reachable s ∧ s.requested 2 = [] ∧ s.written 2 = [.closed 0] ∧
      ¬ s.Isolated := by
  obtain ⟨s, hs, hrequested, hwritten⟩ : ∃ s, connectionSystem.exec .start
      (firstClient ++ [.close, .accept] ++ threadEnds) = some s ∧ s.requested 2 = [] ∧
      s.written 2 = [.closed 0] := ⟨_, rfl, rfl, rfl⟩
  refine ⟨s, hs, TSys.Reachable.exec _ (.init rfl) hs, hrequested, hwritten, ?_⟩
  intro hiso
  have hmem := hiso 2 (.closed 0) (by rw [hwritten]; exact List.mem_singleton_self _)
  rw [hrequested] at hmem
  cases hmem

end InMemoryFuzzing.RemoteControl

import InMemoryFuzzing.Base.TSys

/-!
# Simulations between transition systems

A relation between the states of two systems such that whatever the concrete one
does, the abstract one can follow with some steps of its own, possibly none.
Every state the concrete system reaches is then related to a state that the
abstract one reaches, so its invariants carry over (`Simulation.invariant`).
-/

namespace InMemoryFuzzing.Base.TSys

variable {σ τ α β : Type*} {concrete : TSys σ α} {abstract : TSys τ β} {ok : σ → α → Prop}
  {R : σ → τ → Prop}

/-- A forward simulation along the steps that satisfy `ok`. The step may rely on
the abstract state being reachable. -/
structure Simulation (concrete : TSys σ α) (abstract : TSys τ β) (ok : σ → α → Prop)
    (R : σ → τ → Prop) : Prop where
  init : ∀ s, concrete.init s → ∃ t, abstract.init t ∧ R s t
  step : ∀ s a s' t, abstract.Reachable t → R s t → ok s a → concrete.step s a = some s' →
    ∃ acts t', abstract.exec t acts = some t' ∧ R s' t'

theorem Simulation.reachable (h : Simulation concrete abstract ok R) {s : σ}
    (hs : concrete.ReachableBy ok s) : ∃ t, abstract.Reachable t ∧ R s t := by
  induction hs with
  | init hinit =>
      obtain ⟨t, ht, hR⟩ := h.init _ hinit
      exact ⟨t, .init ht, hR⟩
  | step _ hok hstep ih =>
      obtain ⟨t, ht, hR⟩ := ih
      obtain ⟨acts, t', hexec, hR'⟩ := h.step _ _ _ t ht hR hok hstep
      exact ⟨t', Reachable.exec acts ht hexec, hR'⟩

/-- An invariant of the abstract system, seen through the relation. -/
theorem Simulation.invariant (h : Simulation concrete abstract ok R) {P : τ → Prop}
    (hP : ∀ t, abstract.Reachable t → P t) {s : σ} (hs : concrete.ReachableBy ok s) :
    ∃ t, P t ∧ R s t := by
  obtain ⟨t, ht, hR⟩ := h.reachable hs
  exact ⟨t, hP t ht, hR⟩

/-- A single step as a run. -/
theorem exec_single {s s' : τ} {a : β} (h : abstract.step s a = some s') :
    abstract.exec s [a] = some s' := by
  simp [exec, h]

end InMemoryFuzzing.Base.TSys

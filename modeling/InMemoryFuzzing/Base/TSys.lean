import Mathlib.Data.List.Basic

/-!
# Labelled transition systems

A system is an initial predicate and a *partial step function*: an action
label resolves the nondeterminism (which thread moves, which bytes the kernel
hands out), so a run is a list of labels and can be executed.

* `ReachableBy ok` — reachability along steps that all satisfy `ok`;
  `Reachable` is the unrestricted case.
* `Inductive` / `Inductive.invariant` — the one induction every safety
  theorem goes through.
* `exec` — run a list of labels; an executed run is a reachability proof
  (`ReachableBy.exec`; `ReachableBy.execWhere` where the steps have to be checked).
-/

namespace InMemoryFuzzing.Base

/-- A transition system over states `σ` with action labels `α`. -/
structure TSys (σ α : Type*) where
  init : σ → Prop
  step : σ → α → Option σ

namespace TSys

variable {σ α : Type*} {m : TSys σ α} {ok : σ → α → Prop}

/-- States reached from an initial one by steps that all satisfy `ok`, a
condition on the label and on the state before the step. -/
inductive ReachableBy (m : TSys σ α) (ok : σ → α → Prop) : σ → Prop
  | init {s} : m.init s → ReachableBy m ok s
  | step {s a s'} : ReachableBy m ok s → ok s a → m.step s a = some s' →
      ReachableBy m ok s'

/-- Every step is allowed. -/
def anyStep (_ : σ) (_ : α) : Prop := True

/-- Reachable by any steps. -/
abbrev Reachable (m : TSys σ α) : σ → Prop := m.ReachableBy anyStep

theorem Reachable.next {s s' : σ} {a : α} (hs : m.Reachable s)
    (h : m.step s a = some s') : m.Reachable s' :=
  ReachableBy.step hs trivial h

/-- `P` is inductive relative to steps satisfying `ok`. -/
structure Inductive (m : TSys σ α) (ok : σ → α → Prop) (P : σ → Prop) : Prop where
  init : ∀ s, m.init s → P s
  step : ∀ s a s', P s → ok s a → m.step s a = some s' → P s'

/-- An inductive predicate holds in every state reached. -/
theorem Inductive.invariant {P : σ → Prop} (h : m.Inductive ok P) :
    ∀ s, m.ReachableBy ok s → P s := by
  intro s hs
  induction hs with
  | init hi => exact h.init _ hi
  | step _ hok hstep ih => exact h.step _ _ _ ih hok hstep

/-- Execute a list of labels. -/
def exec (m : TSys σ α) : σ → List α → Option σ
  | s, [] => some s
  | s, a :: rest => (m.step s a).bind fun s' => m.exec s' rest

/-- An executed run reaches its last state, if `ok` holds of its labels wherever
they are taken. -/
theorem ReachableBy.exec : ∀ (acts : List α) {s s' : σ}, m.ReachableBy ok s →
    (∀ a ∈ acts, ∀ s, ok s a) → m.exec s acts = some s' → m.ReachableBy ok s'
  | [], s, s', hs, _, h => by
      simp only [TSys.exec, Option.some.injEq] at h
      exact h ▸ hs
  | a :: rest, s, s', hs, hok, h => by
      simp only [TSys.exec, Option.bind_eq_some_iff] at h
      obtain ⟨mid, hmid, hrest⟩ := h
      have hmidreach := hs.step (hok a List.mem_cons_self s) hmid
      exact ReachableBy.exec rest hmidreach (fun b hb => hok b (List.mem_cons_of_mem _ hb)) hrest

/-- Execute a list of labels as long as a check passes. -/
def execWhere (m : TSys σ α) (check : σ → α → Bool) : σ → List α → Option σ
  | s, [] => some s
  | s, a :: rest =>
      if check s a then (m.step s a).bind fun s' => m.execWhere check s' rest else none

/-- A checked run reaches its last state, if `ok` holds wherever the check passes. -/
theorem ReachableBy.execWhere {check : σ → α → Bool} (hcheck : ∀ s a, check s a = true → ok s a)
    {acts : List α} {s s' : σ} (hs : m.ReachableBy ok s)
    (h : m.execWhere check s acts = some s') : m.ReachableBy ok s' := by
  induction acts generalizing s with
  | nil =>
      cases h
      exact hs
  | cons a rest ih =>
      obtain ⟨hpasses, hrun⟩ := Option.ite_none_right_eq_some.mp h
      obtain ⟨mid, hmid, hrest⟩ := Option.bind_eq_some_iff.mp hrun
      exact ih (hs.step (hcheck s a hpasses) hmid) hrest

theorem Reachable.exec (acts : List α) {s s' : σ} (hs : m.Reachable s)
    (h : m.exec s acts = some s') : m.Reachable s' :=
  ReachableBy.exec acts hs (fun _ _ _ => trivial) h

/-! ## Records -/

variable {ρ : Type*}

/-- The system with a record of its steps, which has no influence on them. -/
def recorded (m : TSys σ α) (empty : ρ) (note : ρ → σ → α → σ → ρ) : TSys (σ × ρ) α where
  init s := m.init s.1 ∧ s.2 = empty
  step s a := (m.step s.1 a).map fun s' => (s', note s.2 s.1 a s')

theorem recorded_step {empty : ρ} {note : ρ → σ → α → σ → ρ} {s s' : σ × ρ} {a : α} :
    (m.recorded empty note).step s a = some s' ↔
      m.step s.1 a = some s'.1 ∧ s'.2 = note s.2 s.1 a s'.1 := by
  obtain ⟨s', r'⟩ := s'
  simp only [recorded, Option.map_eq_some_iff, Prod.mk.injEq]
  constructor
  · rintro ⟨mid, hstep, rfl, rfl⟩
    exact ⟨hstep, rfl⟩
  · rintro ⟨hstep, rfl⟩
    exact ⟨s', hstep, rfl, rfl⟩

/-- Every state that is reached is reached with a record. -/
theorem Reachable.recorded (empty : ρ) (note : ρ → σ → α → σ → ρ) {s : σ} (h : m.Reachable s) :
    ∃ r, (m.recorded empty note).Reachable (s, r) := by
  induction h with
  | init hinit => exact ⟨empty, .init ⟨hinit, rfl⟩⟩
  | @step s a s' _ _ hstep ih =>
      obtain ⟨r, hr⟩ := ih
      exact ⟨note r s a s', hr.next (recorded_step.mpr ⟨hstep, rfl⟩)⟩

end TSys

end InMemoryFuzzing.Base

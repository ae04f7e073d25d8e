import InMemoryFuzzing.Base.TSys
import Mathlib.Logic.Function.Basic

/-!
# Writers that share an output under one lock

Any number of writers `τ` append to one output. An operation `ω` is a list of
pieces; a writer takes the lock, appends the pieces one by one and gives the
lock back, and the pieces of different writers may be scheduled in any order.

`Locked.serial` is the result: at every moment the output is a sequence of whole
operations followed by a part of the one whose writer holds the lock, and each
writer's operations appear in its own order.
-/

namespace InMemoryFuzzing.Base.Locked

variable {τ ω β : Type*} [DecidableEq τ]

/-- Where a writer is: outside, or behind the lock with pieces left to append. -/
inductive Phase (ω β : Type*)
  | outside
  | inside (op : ω) (left : List (List β))

/-- A writer: the operations it has not begun, and its phase. -/
structure Writer (ω β : Type*) where
  todo : List ω
  phase : Phase ω β

/-- The writers, the lock and the output. -/
structure State (τ ω β : Type*) where
  lock : Option τ
  writer : τ → Writer ω β
  out : List β

/-- The next step of writer `t`: lock, append a piece, or unlock. A writer that
finds the lock taken, or has nothing to do, has no step. -/
def step (pieces : ω → List (List β)) (s : State τ ω β) (t : τ) : Option (State τ ω β) :=
  match (s.writer t).phase with
  | .outside =>
      match (s.writer t).todo, s.lock with
      | op :: rest, none =>
          some ⟨some t, Function.update s.writer t ⟨rest, .inside op (pieces op)⟩, s.out⟩
      | _, _ => none
  | .inside op (piece :: left) =>
      some ⟨s.lock, Function.update s.writer t ⟨(s.writer t).todo, .inside op left⟩,
        s.out ++ piece⟩
  | .inside _ [] =>
      some ⟨none, Function.update s.writer t ⟨(s.writer t).todo, .outside⟩, s.out⟩

/-- The writers with their programs, the lock free and nothing written. -/
def start (program : τ → List ω) : State τ ω β := ⟨none, fun t => ⟨program t, .outside⟩, []⟩

/-- All interleavings of the writers. -/
def system (pieces : ω → List (List β)) (program : τ → List ω) : TSys (State τ ω β) τ where
  init s := s = start program
  step := step pieces

variable {pieces : ω → List (List β)} {program : τ → List ω} {s s' : State τ ω β} {t : τ}

/-- Everything a step can do. -/
theorem step_cases (h : step pieces s t = some s') :
    (∃ op rest, s.writer t = ⟨op :: rest, .outside⟩ ∧ s.lock = none ∧
      s' = ⟨some t, Function.update s.writer t ⟨rest, .inside op (pieces op)⟩, s.out⟩) ∨
    (∃ op piece left todo, s.writer t = ⟨todo, .inside op (piece :: left)⟩ ∧
      s' = ⟨s.lock, Function.update s.writer t ⟨todo, .inside op left⟩, s.out ++ piece⟩) ∨
    (∃ op todo, s.writer t = ⟨todo, .inside op []⟩ ∧
      s' = ⟨none, Function.update s.writer t ⟨todo, .outside⟩, s.out⟩) := by
  unfold step at h
  cases hw : s.writer t with
  | mk todo phase =>
      rw [hw] at h
      cases phase with
      | outside =>
          simp only at h
          cases todo with
          | nil => cases h
          | cons op rest =>
              cases hl : s.lock with
              | some u => rw [hl] at h; cases h
              | none =>
                  rw [hl] at h
                  cases h
                  exact Or.inl ⟨op, rest, rfl, rfl, rfl⟩
      | inside op left =>
          cases left with
          | nil => cases h; exact Or.inr (Or.inr ⟨op, todo, rfl, rfl⟩)
          | cons piece left =>
              cases h
              exact Or.inr (Or.inl ⟨op, piece, left, todo, rfl, rfl⟩)

/-- The operations of `t` in a log. -/
def ofWriter (log : List (τ × ω)) (t : τ) : List ω :=
  (log.filter fun entry => entry.1 = t).map Prod.snd

theorem ofWriter_concat (log : List (τ × ω)) (t u : τ) (op : ω) :
    ofWriter (log ++ [(t, op)]) u = ofWriter log u ++ if t = u then [op] else [] := by
  rw [ofWriter, List.filter_append, List.map_append]
  by_cases h : t = u
  · simp [ofWriter, h]
  · simp [ofWriter, h]

/-- The bytes of the operations of a log, whole. -/
def written (pieces : ω → List (List β)) (log : List (τ × ω)) : List β :=
  (log.map fun entry => (pieces entry.2).flatten).flatten

/-- Operations of a writer that are not in the log: the one it is in, and those
to come. -/
def Writer.pending (w : Writer ω β) : List ω :=
  match w.phase with
  | .outside => w.todo
  | .inside op _ => op :: w.todo

/-- What the lock protects: a free lock means that nobody is inside and nothing
is half written, a taken one that only its owner is, with `part` written. -/
def Guarded (pieces : ω → List (List β)) (s : State τ ω β) (part : List β) : Prop :=
  match s.lock with
  | none => part = [] ∧ ∀ t, (s.writer t).phase = .outside
  | some t => (∃ op before left, (s.writer t).phase = .inside op left ∧
        pieces op = before ++ left ∧ part = before.flatten) ∧
      ∀ u, u ≠ t → (s.writer u).phase = .outside

/-- The output is the log's operations and a part of the owner's; each program is
its logged operations and its pending ones. -/
structure Serial (pieces : ω → List (List β)) (program : τ → List ω) (s : State τ ω β)
    (log : List (τ × ω)) (part : List β) : Prop where
  out_eq : s.out = written pieces log ++ part
  guarded : Guarded pieces s part
  program_eq : ∀ t, program t = ofWriter log t ++ (s.writer t).pending

/-- Only the owner of the lock is inside. -/
theorem Guarded.lock_eq {part : List β} (h : Guarded pieces s part) {op : ω}
    {left : List (List β)} (hin : (s.writer t).phase = .inside op left) : s.lock = some t := by
  unfold Guarded at h
  cases hl : s.lock with
  | none =>
      rw [hl] at h
      rw [h.2 t] at hin
      cases hin
  | some u =>
      rw [hl] at h
      by_cases hu : t = u
      · rw [hu]
      · rw [h.2 t hu] at hin
        cases hin

/-- One step keeps the output serial. -/
theorem Serial.next {log : List (τ × ω)} {part : List β} (h : Serial pieces program s log part)
    (hstep : step pieces s t = some s') :
    ∃ log' part', Serial pieces program s' log' part' := by
  obtain ⟨hout, hguard, hprog⟩ := h
  rcases step_cases hstep with ⟨op, rest, hw, hlock, rfl⟩ | ⟨op, piece, left, todo, hw, rfl⟩ |
      ⟨op, todo, hw, rfl⟩
  · -- the lock is taken: nothing is written yet
    rw [Guarded, hlock] at hguard
    refine ⟨log, part, hout, ?_, ?_⟩
    · refine ⟨⟨op, [], pieces op, by simp, rfl, hguard.1⟩, ?_⟩
      intro u hu
      simp only [Function.update_of_ne hu]
      exact hguard.2 u
    · intro u
      rw [hprog u]
      by_cases hu : u = t
      · subst hu
        simp [hw, Writer.pending]
      · simp only [Function.update_of_ne hu]
  · -- a piece of the owner's operation
    have hphase : (s.writer t).phase = .inside op (piece :: left) := by rw [hw]
    have hlock := hguard.lock_eq hphase
    rw [Guarded, hlock] at hguard
    obtain ⟨⟨op', before, left', hin, hpieces, hpart⟩, hothers⟩ := hguard
    rw [hphase] at hin
    cases hin
    refine ⟨log, part ++ piece, by rw [hout, List.append_assoc], ?_, ?_⟩
    · rw [Guarded, hlock]
      refine ⟨⟨op, before ++ [piece], left, by simp, by simp [hpieces], by simp [hpart]⟩, ?_⟩
      intro u hu
      simp only [Function.update_of_ne hu]
      exact hothers u hu
    · intro u
      rw [hprog u]
      by_cases hu : u = t
      · subst hu
        simp [hw, Writer.pending]
      · simp only [Function.update_of_ne hu]
  · -- the operation is complete and enters the log
    have hphase : (s.writer t).phase = .inside op [] := by rw [hw]
    have hlock := hguard.lock_eq hphase
    rw [Guarded, hlock] at hguard
    obtain ⟨⟨op', before, left', hin, hpieces, hpart⟩, hothers⟩ := hguard
    rw [hphase] at hin
    cases hin
    rw [List.append_nil] at hpieces
    refine ⟨log ++ [(t, op)], [], ?_, ⟨rfl, ?_⟩, ?_⟩
    · simp [hout, written, hpieces, hpart]
    · intro u
      by_cases hu : u = t
      · subst hu
        simp
      · simp only [Function.update_of_ne hu]
        exact hothers u hu
    · intro u
      rw [hprog u, ofWriter_concat, List.append_assoc]
      by_cases hu : u = t
      · subst hu
        simp [hw, Writer.pending]
      · simp [Function.update_of_ne hu, Ne.symm hu]

/-- **Serialisation.** In every reachable state the output is serial. -/
theorem serial (hs : (system pieces program).Reachable s) :
    ∃ log part, Serial pieces program s log part := by
  refine TSys.Inductive.invariant
    (P := fun s => ∃ log part, Serial pieces program s log part) ⟨?_, ?_⟩ s hs
  · rintro s rfl
    exact ⟨[], [], rfl, ⟨rfl, fun _ => rfl⟩, fun _ => rfl⟩
  · rintro s t s' ⟨log, part, h⟩ _ hstep
    exact h.next hstep

/-- A writer with nothing left to do. -/
def Writer.Finished (w : Writer ω β) : Prop := w.pending = []

/-- As long as some writer is not finished, some writer has a step. -/
theorem Serial.progress {log : List (τ × ω)} {part : List β}
    (h : Serial pieces program s log part) (hmore : ¬ (s.writer t).Finished) :
    ∃ u s', step pieces s u = some s' := by
  have hguard := h.guarded
  unfold Guarded at hguard
  cases hl : s.lock with
  | none =>
      rw [hl] at hguard
      have hout := hguard.2 t
      rw [Writer.Finished, Writer.pending, hout] at hmore
      obtain ⟨op, rest, htodo⟩ := List.exists_cons_of_ne_nil hmore
      have htodo : (s.writer t).todo = op :: rest := htodo
      have hstep : step pieces s t = some
          ⟨some t, Function.update s.writer t ⟨rest, .inside op (pieces op)⟩, s.out⟩ := by
        rw [step, hout]
        simp only [htodo, hl]
      exact ⟨t, _, hstep⟩
  | some u =>
      rw [hl] at hguard
      obtain ⟨⟨op, before, left, hin, _, _⟩, _⟩ := hguard
      cases left with
      | nil => exact ⟨u, _, by rw [step, hin]⟩
      | cons piece left => exact ⟨u, _, by rw [step, hin]⟩

end InMemoryFuzzing.Base.Locked

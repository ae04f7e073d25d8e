import Mathlib.Data.List.Basic

/-!
# Loops that may not end

A loop is given by its body: in a state it raises, ends with a result, or goes on with another
state. `runLoop` makes a number of rounds at most; the loop `Ends` if some number is enough.

* `runLoop_add` — more rounds change nothing behind the end;
* `ends_of_measure` — a loop whose rounds lower a measure ends;
* `not_ends_of_round` — a loop that stays among states it goes on from does not.
-/

namespace InMemoryFuzzing.Base

variable {ε σ ρ : Type}

/-- At most `fuel` rounds; `none` if the loop goes on behind them. -/
def runLoop (body : σ → Except ε (σ ⊕ ρ)) : Nat → σ → Option (Except ε ρ)
  | 0, _ => none
  | fuel + 1, s =>
      match body s with
      | .error e => some (.error e)
      | .ok (.inl next) => runLoop body fuel next
      | .ok (.inr result) => some (.ok result)

/-- The loop returns or raises. -/
def Ends (body : σ → Except ε (σ ⊕ ρ)) (s : σ) : Prop := ∃ fuel, (runLoop body fuel s).isSome = true

/-- The outcome of a loop that ends. -/
def EndsWith (body : σ → Except ε (σ ⊕ ρ)) (s : σ) (outcome : Except ε ρ) : Prop :=
  ∃ fuel, runLoop body fuel s = some outcome

/-- The states before the rounds of the loop. -/
inductive Visits (body : σ → Except ε (σ ⊕ ρ)) (s : σ) : σ → Prop
  | start : Visits body s s
  | round {t next : σ} (h : Visits body s t) (hbody : body t = .ok (.inl next)) : Visits body s next

variable {body : σ → Except ε (σ ⊕ ρ)} {s : σ} {outcome : Except ε ρ}

/-- A state that is visited is the first one, or is visited from the next one on. -/
theorem Visits.head {t : σ} (h : Visits body s t) :
    t = s ∨ ∃ next, body s = .ok (.inl next) ∧ Visits body next t := by
  induction h with
  | start => exact .inl rfl
  | round h hbody ih =>
      rcases ih with rfl | ⟨next, hnext, hvisits⟩
      · exact .inr ⟨_, hbody, .start⟩
      · exact .inr ⟨next, hnext, hvisits.round hbody⟩

theorem runLoop_continue {next : σ} (h : body s = .ok (.inl next)) (fuel : Nat) :
    runLoop body (fuel + 1) s = runLoop body fuel next := by
  rw [runLoop, h]

theorem runLoop_add {fuel : Nat} (h : runLoop body fuel s = some outcome) (more : Nat) :
    runLoop body (fuel + more) s = some outcome := by
  induction fuel generalizing s with
  | zero => cases h
  | succ fuel ih =>
      rw [Nat.add_right_comm, runLoop]
      rw [runLoop] at h
      split at h
      · exact h
      · exact ih h
      · exact h

/-- A loop has one outcome. -/
theorem EndsWith.unique {other : Except ε ρ} (h : EndsWith body s outcome)
    (hother : EndsWith body s other) : outcome = other := by
  obtain ⟨m, hm⟩ := h
  obtain ⟨n, hn⟩ := hother
  have hleft := runLoop_add hm n
  have hright := runLoop_add hn m
  rw [Nat.add_comm n m, hleft] at hright
  exact Option.some.inj hright

/-- What comes behind a loop that returns. -/
theorem EndsWith.bind_iff {τ : Type} {result : ρ} {f : ρ → Except ε τ} {final : Except ε τ}
    (h : EndsWith body s (.ok result)) :
    (∃ outcome, EndsWith body s outcome ∧ final = outcome >>= f) ↔ final = f result := by
  constructor
  · rintro ⟨outcome, hends, rfl⟩
    rw [hends.unique h]
    rfl
  · intro hfinal
    exact ⟨_, h, hfinal⟩

theorem EndsWith.ends (h : EndsWith body s outcome) : Ends body s := by
  obtain ⟨fuel, hfuel⟩ := h
  exact ⟨fuel, by rw [hfuel]; rfl⟩

/-! ## One round -/

theorem endsWith_error {e : ε} (h : body s = .error e) : EndsWith body s (.error e) :=
  ⟨1, by rw [runLoop, h]⟩

theorem endsWith_result {result : ρ} (h : body s = .ok (.inr result)) :
    EndsWith body s (.ok result) :=
  ⟨1, by rw [runLoop, h]⟩

theorem EndsWith.of_round {next : σ} (hbody : body s = .ok (.inl next))
    (h : EndsWith body next outcome) : EndsWith body s outcome := by
  obtain ⟨fuel, hfuel⟩ := h
  exact ⟨fuel + 1, by rw [runLoop_continue hbody, hfuel]⟩

theorem ends_iff_of_round {next : σ} (hbody : body s = .ok (.inl next)) :
    Ends body s ↔ Ends body next := by
  constructor
  · rintro ⟨fuel, hfuel⟩
    cases fuel with
    | zero => cases hfuel
    | succ fuel => exact ⟨fuel, by rwa [runLoop_continue hbody] at hfuel⟩
  · rintro ⟨fuel, hfuel⟩
    exact ⟨fuel + 1, by rwa [runLoop_continue hbody]⟩

/-! ## All rounds -/

/-- A loop ends if each of its rounds lowers a measure. -/
theorem ends_of_measure (μ : σ → Nat)
    (hround : ∀ t next, Visits body s t → body t = .ok (.inl next) → μ next < μ t) :
    Ends body s := by
  have hfrom : ∀ n t, Visits body s t → μ t < n → Ends body t := by
    intro n
    induction n with
    | zero =>
        intro t _ hlt
        omega
    | succ n ih =>
        intro t hvisit hlt
        cases hbody : body t with
        | error e => exact (endsWith_error hbody).ends
        | ok outcome =>
            cases outcome with
            | inr result => exact (endsWith_result hbody).ends
            | inl next =>
                have hless := hround t next hvisit hbody
                exact (ends_iff_of_round hbody).mpr (ih next (.round hvisit hbody) (by omega))
  exact hfrom (μ s + 1) s .start (Nat.lt_succ_self _)

/-- It ends within as many rounds as the measure allows. -/
theorem runLoop_of_measure (μ : σ → Nat)
    (hround : ∀ t next, body t = .ok (.inl next) → μ next < μ t) :
    ∀ n t, μ t < n → (runLoop body n t).isSome = true := by
  intro n
  induction n with
  | zero =>
      intro t hlt
      omega
  | succ n ih =>
      intro t hlt
      rw [runLoop]
      split
      · rfl
      · rename_i next hbody
        have hless := hround t next hbody
        exact ih next (by omega)
      · rfl

/-- A loop does not end if it goes on from every state it can be in. -/
theorem not_ends_of_round {I : σ → Prop} (hs : I s)
    (hround : ∀ t, I t → ∃ next, body t = .ok (.inl next) ∧ I next) : ¬Ends body s := by
  rintro ⟨fuel, hfuel⟩
  induction fuel generalizing s with
  | zero => cases hfuel
  | succ fuel ih =>
      obtain ⟨next, hbody, hnext⟩ := hround s hs
      rw [runLoop_continue hbody] at hfuel
      exact ih hnext hfuel

/-- What holds before every round holds before the last one. -/
theorem EndsWith.last {P : σ → Prop} (h : EndsWith body s outcome) (hs : P s)
    (hround : ∀ t next, Visits body s t → P t → body t = .ok (.inl next) → P next) :
    ∃ t, Visits body s t ∧ P t ∧ body t = outcome.map .inr := by
  have hfrom : ∀ fuel t, Visits body s t → P t → runLoop body fuel t = some outcome →
      ∃ t, Visits body s t ∧ P t ∧ body t = outcome.map .inr := by
    intro fuel
    induction fuel with
    | zero =>
        intro t _ _ hrun
        cases hrun
    | succ fuel ih =>
        intro t hvisit ht hrun
        rw [runLoop] at hrun
        split at hrun
        · rename_i hbody
          cases hrun
          exact ⟨t, hvisit, ht, hbody⟩
        · rename_i next hbody
          exact ih next (.round hvisit hbody) (hround t next hvisit ht hbody) hrun
        · rename_i hbody
          cases hrun
          exact ⟨t, hvisit, ht, hbody⟩
  obtain ⟨fuel, hfuel⟩ := h
  exact hfrom fuel s .start hs hfuel

end InMemoryFuzzing.Base

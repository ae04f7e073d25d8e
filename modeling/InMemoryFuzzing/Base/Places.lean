import Mathlib.Logic.Function.Basic

/-!
# Operations that look at one place at a time

An operation on a store of places returns a result and the new store. It is `Local` when its
result does not depend on the store, and what it leaves at a place only on what it finds there.
Two runs on different stores then differ at most where the stores did, and not even there when
the place is reset on the way.
-/

namespace InMemoryFuzzing.Base

variable {ι β σ τ : Type}

structure Local (op : (ι → β) → σ × (ι → β)) : Prop where
  result : ∀ m m', (op m).1 = (op m').1
  place : ∀ m m' i, m i = m' i → (op m).2 i = (op m').2 i

/-- What is left at the place does not depend on what was there. -/
def Resets (op : (ι → β) → σ × (ι → β)) (i : ι) : Prop :=
  ∀ m m', (op m).2 i = (op m').2 i

/-- What was at the place is left there. -/
def Keeps (op : (ι → β) → σ × (ι → β)) (i : ι) : Prop := ∀ m, (op m).2 i = m i

/-- The second operation behind the first one. -/
def andThen (op : (ι → β) → σ × (ι → β)) (next : σ → (ι → β) → τ × (ι → β)) (m : ι → β) :
    τ × (ι → β) := next (op m).1 (op m).2

section

variable {op : (ι → β) → σ × (ι → β)} {next : σ → (ι → β) → τ × (ι → β)} {i : ι}

theorem Local.pure (s : σ) : Local fun m : ι → β => (s, m) := ⟨fun _ _ => rfl, fun _ _ _ h => h⟩

theorem Keeps.pure (s : σ) (i : ι) : Keeps (fun m : ι → β => (s, m)) i := fun _ => rfl

theorem Local.andThen (hop : Local op) (hnext : ∀ s, Local (next s)) : Local (andThen op next) where
  result m m' := by
    rw [Base.andThen, Base.andThen, hop.result m m']
    exact (hnext _).result _ _
  place m m' i h := by
    rw [Base.andThen, Base.andThen, hop.result m m']
    exact (hnext _).place _ _ i (hop.place m m' i h)

theorem Keeps.andThen (hop : Keeps op i) (hnext : ∀ m, Keeps (next (op m).1) i) :
    Keeps (andThen op next) i := fun m => (hnext m _).trans (hop m)

theorem Resets.andThen (hop : Resets op i) (hlocal : Local op) (hnext : ∀ s, Local (next s)) :
    Resets (andThen op next) i := by
  intro m m'
  rw [Base.andThen, Base.andThen, hlocal.result m m']
  exact (hnext _).place _ _ i (hop m m')

theorem Resets.behind (hlocal : Local op) (hnext : ∀ s, Resets (next s) i) :
    Resets (Base.andThen op next) i := by
  intro m m'
  rw [Base.andThen, Base.andThen, hlocal.result m m']
  exact hnext _ _ _

end

/-- Another content for one place, which may depend on the content before. -/
theorem Local.update [DecidableEq ι] (i : ι) (s : σ) (f : β → β) :
    Local fun m : ι → β => (s, Function.update m i (f (m i))) where
  result _ _ := rfl
  place m m' j h := by
    by_cases hj : j = i
    · subst hj
      simp only [Function.update_self, h]
    · simp only [Function.update_of_ne hj, h]

theorem Keeps.update [DecidableEq ι] {i j : ι} (h : j ≠ i) (s : σ) (f : β → β) :
    Keeps (fun m : ι → β => (s, Function.update m i (f (m i)))) j :=
  fun _ => Function.update_of_ne h _ _

theorem Resets.update [DecidableEq ι] (i : ι) (s : σ) (b : β) :
    Resets (fun m : ι → β => (s, Function.update m i b)) i := by
  intro m m'
  simp only [Function.update_self]

end InMemoryFuzzing.Base

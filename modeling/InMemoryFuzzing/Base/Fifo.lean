import Mathlib.Data.List.Basic

/-!
# Queues

A queue of elements that are put in and taken out several at a time, together with the record
of both: `Leads` is what can be said of a queue and of the same queue at a later time. Nothing is
lost or taken twice: what is taken in between, and what is left, are what was there and what was
put in (`Leads.trans` puts two such times together).
-/

namespace InMemoryFuzzing.Base

/-- What is in a queue, what has been put in, and what has been taken out, call by call. -/
structure Fifo (α : Type) where
  queued : List α
  added : List α
  taken : List (List α)

namespace Fifo

variable {α : Type} {p q r : Fifo α}

def empty : Fifo α := ⟨[], [], []⟩

def put (q : Fifo α) (xs : List α) : Fifo α := ⟨q.queued ++ xs, q.added ++ xs, q.taken⟩

/-- As many elements as are asked for, or all that are there. -/
def get (q : Fifo α) (n : Nat) : Fifo α :=
  ⟨q.queued.drop n, q.added, q.taken ++ [q.queued.take n]⟩

/-- The second queue is the first one later. -/
def Leads (p q : Fifo α) : Prop :=
  ∃ added taken, q.added = p.added ++ added ∧ q.taken = p.taken ++ taken ∧
    taken.flatten ++ q.queued = p.queued ++ added

/-- All that has been taken, and what is left, is what has been put in. -/
def Accounted (q : Fifo α) : Prop := q.taken.flatten ++ q.queued = q.added

theorem Leads.refl (q : Fifo α) : Leads q q := ⟨[], [], by simp, by simp, by simp⟩

theorem leads_put (q : Fifo α) (xs : List α) : Leads q (q.put xs) :=
  ⟨xs, [], rfl, by simp [put], by simp [put]⟩

theorem leads_get (q : Fifo α) (n : Nat) : Leads q (q.get n) :=
  ⟨[], [q.queued.take n], by simp [get], rfl, by simp [get]⟩

theorem Leads.trans (hpq : Leads p q) (hqr : Leads q r) : Leads p r := by
  obtain ⟨added, taken, hadded, htaken, hkeep⟩ := hpq
  obtain ⟨added', taken', hadded', htaken', hkeep'⟩ := hqr
  refine ⟨added ++ added', taken ++ taken', ?_, ?_, ?_⟩
  · rw [hadded', hadded, List.append_assoc]
  · rw [htaken', htaken, List.append_assoc]
  · calc (taken ++ taken').flatten ++ r.queued
        = taken.flatten ++ (taken'.flatten ++ r.queued) := by simp
      _ = taken.flatten ++ q.queued ++ added' := by rw [hkeep', List.append_assoc]
      _ = p.queued ++ (added ++ added') := by rw [hkeep, List.append_assoc]

theorem accounted_empty : (empty : Fifo α).Accounted := rfl

theorem Leads.accounted (h : Leads p q) (hp : p.Accounted) : q.Accounted := by
  obtain ⟨added, taken, hadded, htaken, hkeep⟩ := h
  show q.taken.flatten ++ q.queued = q.added
  rw [hadded, htaken, List.flatten_append, List.append_assoc, hkeep, ← List.append_assoc]
  congr 1

end Fifo

end InMemoryFuzzing.Base

import Mathlib.Data.List.Basic

/-!
# Incremental consumers

A receiver that keeps a buffer, takes complete items off its front after every
read and leaves an undecided remainder behind. `Consumer` is one such step
together with the four facts that make the result independent of how the input
is cut:

* a completed item does not depend on later input (`item_append`), and is
  strictly shorter work for the rest (`item_shrinks`);
* what a waiting step drops would never have mattered (`wait_append`);
* a refusal is final (`fail_append`).

`drain` iterates the step. `drain_append` is the cut lemma: draining `x ++ y` is
draining `x`, then its remainder followed by `y`.
-/

namespace InMemoryFuzzing.Base

/-- What one step of a consumer does with its buffer. -/
inductive Outcome (α β : Type*)
  /-- A complete item, and the buffer behind it. -/
  | item (out : β) (rest : List α)
  /-- Nothing complete; the buffer kept until more arrives. -/
  | wait (kept : List α)
  /-- The buffer can never be consumed. -/
  | fail

/-- A step function whose decisions survive more input. -/
structure Consumer (α β : Type*) where
  step : List α → Outcome α β
  item_shrinks : ∀ {buf out rest}, step buf = .item out rest → rest.length < buf.length
  item_append : ∀ {buf out rest} (more), step buf = .item out rest →
    step (buf ++ more) = .item out (rest ++ more)
  wait_append : ∀ {buf kept} (more), step buf = .wait kept →
    step (buf ++ more) = step (kept ++ more)
  fail_append : ∀ {buf} (more), step buf = .fail → step (buf ++ more) = .fail

/-- The items taken off a buffer, and the remainder (`none` after a refusal). -/
structure Drained (α β : Type*) where
  items : List β
  kept : Option (List α)

namespace Drained

variable {α β : Type*}

/-- Put items in front. -/
def push (out : List β) (d : Drained α β) : Drained α β := ⟨out ++ d.items, d.kept⟩

@[simp] theorem push_items (out : List β) (d : Drained α β) :
    (d.push out).items = out ++ d.items := rfl

@[simp] theorem push_kept (out : List β) (d : Drained α β) : (d.push out).kept = d.kept := rfl

@[simp] theorem push_nil (d : Drained α β) : d.push [] = d := rfl

end Drained

namespace Consumer

variable {α β : Type*} (k : Consumer α β)

/-- Take items until the step waits or refuses. -/
def drain (buf : List α) : Drained α β :=
  match _h : k.step buf with
  | .item out rest => (drain rest).push [out]
  | .wait kept => ⟨[], some kept⟩
  | .fail => ⟨[], none⟩
termination_by buf.length
decreasing_by exact k.item_shrinks _h

variable {k}

theorem drain_item {buf rest : List α} {out : β} (h : k.step buf = .item out rest) :
    k.drain buf = (k.drain rest).push [out] := by
  conv => lhs; rw [drain]
  split
  · rename_i out' rest' h'
    rw [h] at h'
    cases h'
    rfl
  · rename_i h'; rw [h] at h'; cases h'
  · rename_i h'; rw [h] at h'; cases h'

theorem drain_wait {buf kept : List α} (h : k.step buf = .wait kept) :
    k.drain buf = ⟨[], some kept⟩ := by
  rw [drain]
  split
  · rename_i h'; rw [h] at h'; cases h'
  · rename_i kept' h'; rw [h] at h'; cases h'; rfl
  · rename_i h'; rw [h] at h'; cases h'

theorem drain_fail {buf : List α} (h : k.step buf = .fail) : k.drain buf = ⟨[], none⟩ := by
  rw [drain]
  split
  · rename_i h'; rw [h] at h'; cases h'
  · rename_i h'; rw [h] at h'; cases h'
  · rfl

/-- Induction along the items a consumer takes. -/
theorem drain_induction {P : List α → Prop}
    (item : ∀ buf out rest, k.step buf = .item out rest → P rest → P buf)
    (wait : ∀ buf kept, k.step buf = .wait kept → P buf)
    (fail : ∀ buf, k.step buf = .fail → P buf) (buf : List α) : P buf := by
  induction hn : buf.length using Nat.strongRecOn generalizing buf with
  | ind n ih =>
      subst hn
      cases hs : k.step buf with
      | item out rest =>
          exact item buf out rest hs (ih rest.length (k.item_shrinks hs) rest rfl)
      | wait kept => exact wait buf kept hs
      | fail => exact fail buf hs

/-- Draining continues: carry a drained remainder on with more input. -/
def resume (k : Consumer α β) (d : Drained α β) (more : List α) : Drained α β :=
  match d.kept with
  | some kept => (k.drain (kept ++ more)).push d.items
  | none => d

theorem resume_push (out : List β) (d : Drained α β) (more : List α) :
    k.resume (d.push out) more = (k.resume d more).push out := by
  obtain ⟨items, kept⟩ := d
  cases kept with
  | none => rfl
  | some kept => simp [resume, Drained.push]

/-- **The cut lemma.** Draining a concatenation is draining its front and
resuming from the remainder. -/
theorem drain_append (x y : List α) : k.drain (x ++ y) = k.resume (k.drain x) y := by
  induction x using k.drain_induction with
  | item x out rest hs ih =>
      rw [drain_item hs, drain_item (k.item_append y hs), ih, resume_push]
  | wait x kept hs =>
      -- the two buffers differ, but the step cannot tell them apart
      have hsame := k.wait_append y hs
      rw [drain_wait hs]
      show k.drain (x ++ y) = (k.drain (kept ++ y)).push []
      rw [Drained.push_nil]
      cases hk : k.step (kept ++ y) with
      | item out rest => rw [drain_item hk, drain_item (hsame.trans hk)]
      | wait kept' => rw [drain_wait hk, drain_wait (hsame.trans hk)]
      | fail => rw [drain_fail hk, drain_fail (hsame.trans hk)]
  | fail x hs => rw [drain_fail hs, drain_fail (k.fail_append y hs)]; rfl

/-- The remainder of a drain is where the step waits. -/
theorem step_kept {buf kept : List α} (h : (k.drain buf).kept = some kept) :
    k.step kept = .wait kept := by
  induction buf using k.drain_induction with
  | item buf out rest hs ih =>
      rw [drain_item hs] at h
      exact ih h
  | wait buf kept' hs =>
      rw [drain_wait hs] at h
      cases h
      have hsame := k.wait_append [] hs
      simp only [List.append_nil] at hsame
      exact hsame ▸ hs
  | fail buf hs =>
      rw [drain_fail hs] at h
      cases h

end Consumer

end InMemoryFuzzing.Base

import Mathlib.Order.BooleanAlgebra.Set
import Mathlib.Logic.Function.Basic

/-!
# Things and who has them

`Holdings` — of a set of things, some were there before, and each of the others has one holder.
A holder lets go of what it has, takes something new, or hands it on.
-/

namespace InMemoryFuzzing.Base

variable {α H : Type*}

/-- What there is, is what there was before and what the holders have, each something else. -/
structure Holdings (before present : Set α) (held : H → Option α) : Prop where
  present : ∀ a, a ∈ present ↔ a ∈ before ∨ ∃ h, held h = some a
  new : ∀ h a, held h = some a → a ∉ before
  apart : ∀ h other a, held h = some a → held other = some a → h = other

namespace Holdings

variable {before present : Set α} {held held' : H → Option α} {x y : H} {a : α}

theorem none : Holdings before before fun _ : H => Option.none where
  present a := by simp
  new h a hheld := by cases hheld
  apart h other a hheld := by cases hheld

theorem mem (h : Holdings before present held) (hx : held x = some a) : a ∈ present :=
  (h.present a).mpr (.inr ⟨x, hx⟩)

theorem of_eq (h : Holdings before present held) (heq : ∀ x, held' x = held x) :
    Holdings before present held' := by
  have hheld : held' = held := funext heq
  rw [hheld]
  exact h

variable [DecidableEq H]

/-- One that lets go of what it has. -/
theorem release (h : Holdings before present held) (hx : held x = some a) :
    Holdings before (present \ {a}) (Function.update held x Option.none) := by
  have hold : ∀ y b, Function.update held x Option.none y = some b ↔ y ≠ x ∧ held y = some b := by
    intro y b
    by_cases heq : y = x
    · subst heq
      simp
    · simp [heq]
  refine ⟨fun b => ?_, fun y b hy => ?_, fun y other b hy hother => ?_⟩
  · rw [Set.mem_sdiff, Set.mem_singleton_iff, h.present]
    simp only [hold]
    constructor
    · rintro ⟨hbefore | ⟨y, hy⟩, hne⟩
      · exact .inl hbefore
      · refine .inr ⟨y, ?_, hy⟩
        rintro rfl
        exact hne (Option.some.inj (hy.symm.trans hx))
    · rintro (hbefore | ⟨y, hne, hy⟩)
      · refine ⟨.inl hbefore, ?_⟩
        rintro rfl
        exact h.new x b hx hbefore
      · refine ⟨.inr ⟨y, hy⟩, ?_⟩
        rintro rfl
        exact hne (h.apart y x b hy hx)
  · exact h.new y b ((hold y b).mp hy).2
  · exact h.apart y other b ((hold y b).mp hy).2 ((hold other b).mp hother).2

/-- One that has nothing takes something that was not there. -/
theorem acquire (h : Holdings before present held) (hx : held x = Option.none) (ha : a ∉ present) :
    Holdings before (insert a present) (Function.update held x (some a)) := by
  have hnew : ∀ y b, Function.update held x (some a) y = some b ↔
      y = x ∧ b = a ∨ held y = some b := by
    intro y b
    by_cases heq : y = x
    · subst heq
      simp [hx, eq_comm]
    · simp [heq]
  refine ⟨fun b => ?_, fun y b hy => ?_, fun y other b hy hother => ?_⟩
  · rw [Set.mem_insert_iff, h.present]
    simp only [hnew]
    constructor
    · rintro (rfl | hbefore | ⟨y, hy⟩)
      · exact .inr ⟨x, .inl ⟨rfl, rfl⟩⟩
      · exact .inl hbefore
      · exact .inr ⟨y, .inr hy⟩
    · rintro (hbefore | ⟨y, ⟨-, rfl⟩ | hy⟩)
      · exact .inr (.inl hbefore)
      · exact .inl rfl
      · exact .inr (.inr ⟨y, hy⟩)
  · rcases (hnew y b).mp hy with ⟨-, rfl⟩ | hy
    · exact fun hbefore => ha ((h.present b).mpr (.inl hbefore))
    · exact h.new y b hy
  · rcases (hnew y b).mp hy with ⟨hyx, hb⟩ | hheld <;>
      rcases (hnew other b).mp hother with ⟨hox, hb'⟩ | hother
    · exact hyx.trans hox.symm
    · exact absurd (hb ▸ h.mem hother) ha
    · exact absurd (hb' ▸ h.mem hheld) ha
    · exact h.apart y other b hheld hother

/-- One hands what it has to another one, which has nothing. -/
theorem hand (h : Holdings before present held) (hx : held x = some a) (hy : held y = Option.none) :
    Holdings before present
      (Function.update (Function.update held x Option.none) y (some a)) := by
  have hy' : Function.update held x Option.none y = Option.none := by
    by_cases heq : y = x
    · rw [heq, Function.update_self]
    · rw [Function.update_of_ne heq]
      exact hy
  have hgone : a ∉ present \ {a} := fun hmem => hmem.2 rfl
  have hhanded := (h.release hx).acquire hy' hgone
  rw [Set.insert_sdiff_self_of_mem (h.mem hx)] at hhanded
  exact hhanded

end Holdings

end InMemoryFuzzing.Base

import Mathlib.Data.List.Basic
import Mathlib.Data.List.Infix

/-!
# First occurrence of a word in a growing buffer

`locate word need buf` is the first position at which `word` occurs and from
which at least `need` elements are present. A receiver that rescans its buffer
after every read computes exactly this; `need` is how many elements it insists
on before it looks. The stability lemmas say what more input can change:

* a position once found stays (`locate_append`), and stays after everything
  before it is dropped (`locate_drop_append`);
* a run of elements without the word is skipped whole (`locate_skip`).
-/

namespace InMemoryFuzzing.Base

variable {α : Type*} [DecidableEq α]

/-- The first position of `word` in `buf` with `need` elements present. -/
def locate (word : List α) (need : Nat) (buf : List α) : Option Nat :=
  (List.range (buf.length + 1 - need)).find? fun i => word.isPrefixOf (buf.drop i)

variable {word buf rest : List α} {need i : Nat}

theorem locate_eq_some :
    locate word need buf = some i ↔
      i + need < buf.length + 1 ∧ word <+: buf.drop i ∧ ∀ j < i, ¬ word <+: buf.drop j := by
  rw [locate, List.find?_range_eq_some]
  simp only [List.mem_range, List.isPrefixOf_iff_prefix, Bool.not_eq_eq_eq_not, Bool.not_true,
    ← Bool.not_eq_true]
  constructor
  · rintro ⟨hpre, hlt, hmin⟩
    exact ⟨by omega, hpre, hmin⟩
  · rintro ⟨hlt, hpre, hmin⟩
    exact ⟨hpre, by omega, hmin⟩

theorem locate_eq_none :
    locate word need buf = none ↔ ∀ i, i + need < buf.length + 1 → ¬ word <+: buf.drop i := by
  rw [locate, List.find?_range_eq_none]
  simp only [List.isPrefixOf_iff_prefix, Bool.not_eq_eq_eq_not, Bool.not_true,
    ← Bool.not_eq_true]
  exact forall_congr' fun i => imp_congr_left (by omega)

omit [DecidableEq α] in
/-- An occurrence inside `buf` does not depend on what follows `buf`. -/
theorem prefix_drop_append (hi : i + word.length ≤ buf.length) :
    word <+: (buf ++ rest).drop i ↔ word <+: buf.drop i := by
  have hle : i ≤ buf.length := by omega
  rw [List.drop_append_of_le_length hle]
  constructor
  · intro h
    exact List.prefix_of_prefix_length_le h (List.prefix_append _ _) (by simp; omega)
  · intro h
    exact h.trans (List.prefix_append _ _)

/-- More input does not move the first occurrence. -/
theorem locate_append (hneed : word.length ≤ need) (h : locate word need buf = some i) :
    locate word need (buf ++ rest) = some i := by
  obtain ⟨hlt, hpre, hmin⟩ := locate_eq_some.mp h
  refine locate_eq_some.mpr ⟨by simp; omega, ?_, ?_⟩
  · exact (prefix_drop_append (by omega)).mpr hpre
  · intro j hj hfound
    exact hmin j hj ((prefix_drop_append (by omega)).mp hfound)

/-- After dropping everything before the first occurrence, it is at the start,
whatever follows. -/
theorem locate_drop_append (hneed : word.length ≤ need) (h : locate word need buf = some i) :
    locate word need (buf.drop i ++ rest) = some 0 := by
  obtain ⟨hlt, hpre, _⟩ := locate_eq_some.mp h
  refine locate_eq_some.mpr ⟨by simp; omega, ?_, fun j hj => absurd hj (by omega)⟩
  exact hpre.trans (List.prefix_append _ _)

/-- The word at the very start is the first occurrence. -/
theorem locate_zero (hlen : need < buf.length + 1) (h : word <+: buf) :
    locate word need buf = some 0 :=
  locate_eq_some.mpr ⟨by omega, by simpa using h, fun j hj => absurd hj (by omega)⟩

/-- `word` starts nowhere inside `gap` when `gap` is followed by `after`. -/
def NoStart (word gap after : List α) : Prop :=
  ∀ j < gap.length, ¬ word <+: (gap ++ after).drop j

omit [DecidableEq α] in
/-- Less text behind the gap leaves less to start in it. -/
theorem NoStart.left {gap after : List α} (h : NoStart word gap (after ++ rest)) :
    NoStart word gap after := by
  intro j hj hfound
  refine h j hj ?_
  have hle : j ≤ (gap ++ after).length := by rw [List.length_append]; omega
  rw [← List.append_assoc, List.drop_append_of_le_length hle]
  exact hfound.trans (List.prefix_append _ _)

/-- A gap in which the word does not start is skipped whole. -/
theorem locate_skip {gap after : List α} (hgap : NoStart word gap after)
    (hlen : need < after.length + 1) (h : word <+: after) :
    locate word need (gap ++ after) = some gap.length :=
  locate_eq_some.mpr ⟨by simp; omega, by simpa using h, hgap⟩

/-- Inside a gap there is nothing to find, however much of it has arrived. -/
theorem locate_gap {gap after part : List α} (hgap : NoStart word gap after)
    (hneed : word.length ≤ need) (hpart : part <+: gap ++ after)
    (hlen : part.length < gap.length + need) : locate word need part = none := by
  obtain ⟨rest, hrest⟩ := hpart
  refine locate_eq_none.mpr fun i hi hfound => hgap i (by omega) ?_
  rw [← hrest]
  exact (prefix_drop_append (by omega)).mpr hfound

end InMemoryFuzzing.Base

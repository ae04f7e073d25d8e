import Mathlib.Data.List.Forall2
import Mathlib.Data.List.Nodup

/-!
# Objects behind references, and machines that answer

The objects of a type are a list; a reference is a position in it, and a new object
goes to the end.

* `Holds` — what a list of references leads to; an update elsewhere does not matter
  (`Holds.congr`), an update of each object behind distinct references maps the values
  (`Holds.modifyAll`).
* `Machine` — a state and an answer to every input; a relation that each step keeps,
  with equal answers, gives equal answers to every sequence of inputs
  (`Simulates.answers`).
-/

namespace InMemoryFuzzing.Base

variable {α : Type*}

/-! ## Objects -/

/-- The references lead to these values. -/
def Holds (objects : List α) (refs : List Nat) (values : List α) : Prop :=
  List.Forall₂ (fun r v => objects[r]? = some v) refs values

/-- Update every object behind the references. -/
def modifyAll (f : α → α) (refs : List Nat) (objects : List α) : List α :=
  refs.foldl (fun objects r => objects.modify r f) objects

theorem modifyAll_other {f : α → α} {refs : List Nat} {r : Nat} (h : r ∉ refs)
    (objects : List α) : (modifyAll f refs objects)[r]? = objects[r]? := by
  induction refs generalizing objects with
  | nil => rfl
  | cons r' rest ih =>
      rw [List.mem_cons, not_or] at h
      rw [modifyAll, List.foldl_cons]
      exact (ih h.2 _).trans (List.getElem?_modify_ne f objects (Ne.symm h.1))

namespace Holds

variable {objects objects' : List α} {refs : List Nat} {values : List α}

/-- Only the objects behind the references matter. -/
theorem congr (h : Holds objects refs values) (hsame : ∀ r ∈ refs, objects'[r]? = objects[r]?) :
    Holds objects' refs values := by
  induction h with
  | nil => exact List.Forall₂.nil
  | cons hr _ ih =>
      rw [List.forall_mem_cons] at hsame
      exact List.Forall₂.cons (hsame.1.trans hr) (ih hsame.2)

theorem append (h : Holds objects refs values) (more : List α) :
    Holds (objects ++ more) refs values := by
  induction h with
  | nil => exact List.Forall₂.nil
  | cons hr _ ih =>
      obtain ⟨hlt, -⟩ := List.getElem?_eq_some_iff.mp hr
      exact List.Forall₂.cons ((List.getElem?_append_left hlt).trans hr) ih

/-- The references are to objects that exist. -/
theorem lt_length (h : Holds objects refs values) {r : Nat} (hr : r ∈ refs) :
    r < objects.length := by
  induction h with
  | nil => cases hr
  | cons hr' _ ih =>
      rcases List.mem_cons.mp hr with rfl | htail
      · exact (List.getElem?_eq_some_iff.mp hr').1
      · exact ih htail

/-- The references to new objects. -/
theorem fresh (objects values : List α) :
    Holds (objects ++ values) (List.range' objects.length values.length) values := by
  induction values generalizing objects with
  | nil => exact List.Forall₂.nil
  | cons v rest ih =>
      rw [List.length_cons, List.range'_succ]
      have hrest := ih (objects ++ [v])
      rw [List.append_assoc, List.length_append] at hrest
      refine List.Forall₂.cons ?_ hrest
      rw [List.getElem?_append_right (Nat.le_refl _), Nat.sub_self]
      rfl

/-- Each of the objects is updated once, if no two references are the same. -/
theorem modifyAll (h : Holds objects refs values) (f : α → α) (hnodup : refs.Nodup) :
    Holds (modifyAll f refs objects) refs (values.map f) := by
  induction refs generalizing objects values with
  | nil =>
      cases h
      exact List.Forall₂.nil
  | cons r rest ih =>
      obtain ⟨hnot, hrest⟩ := List.nodup_cons.mp hnodup
      cases h with
      | @cons _ v _ values hr htail =>
          have hmodified : (objects.modify r f)[r]? = some (f v) := by
            rw [List.getElem?_modify_eq, hr]
            rfl
          have hlater : Holds (objects.modify r f) rest values := by
            refine congr htail ?_
            intro r' hr'
            have hne : r ≠ r' := fun heq => hnot (heq ▸ hr')
            exact List.getElem?_modify_ne f objects hne
          refine List.Forall₂.cons ?_ (ih hlater hrest)
          exact (modifyAll_other hnot _).trans hmodified

/-- A reference that may be null. -/
theorem option {r : Option Nat} {v : Option α} (h : Holds objects r.toList v.toList) :
    (r.bind fun r => objects[r]?) = v := by
  cases r with
  | none =>
      cases v with
      | none => rfl
      | some v => cases h
  | some r =>
      cases v with
      | none => cases h
      | some v =>
          cases h with
          | cons hr _ => exact hr

/-- A new object, if there is one. -/
theorem fresh_option (objects : List α) (v : Option α) :
    Holds (objects ++ v.toList) (v.map fun _ => objects.length).toList v.toList := by
  cases v with
  | none => exact List.Forall₂.nil
  | some v => exact fresh objects [v]

/-- Update the object behind a reference that may be null. -/
theorem modifyOption {r : Option Nat} {v : Option α} (h : Holds objects r.toList v.toList)
    (f : α → α) : Holds (Base.modifyAll f r.toList objects) r.toList (v.map f).toList := by
  have hnodup : r.toList.Nodup := by
    cases r with
    | none => exact List.nodup_nil
    | some r => exact List.nodup_singleton r
  have hmodified := h.modifyAll f hnodup
  rwa [← Option.toList_map] at hmodified

end Holds

/-! ## Machines -/

/-- A machine over states `σ` that answers inputs `ι`. -/
abbrev Machine (σ ι ο : Type*) := σ → ι → ο × σ

namespace Machine

variable {σ τ ι ο : Type*}

/-- The answers to a list of inputs, and the last state. -/
def run (m : Machine σ ι ο) : σ → List ι → List ο × σ
  | s, [] => ([], s)
  | s, i :: rest =>
      let (answer, s) := m s i
      let (answers, s) := m.run s rest
      (answer :: answers, s)

/-- Related states give the same answer and go to related states. -/
def Simulates (m : Machine σ ι ο) (m' : Machine τ ι ο) (related : σ → τ → Prop) : Prop :=
  ∀ s t i, related s t → (m s i).1 = (m' t i).1 ∧ related (m s i).2 (m' t i).2

theorem Simulates.run {m : Machine σ ι ο} {m' : Machine τ ι ο} {related : σ → τ → Prop}
    (h : m.Simulates m' related) {s : σ} {t : τ} (hs : related s t) (inputs : List ι) :
    (m.run s inputs).1 = (m'.run t inputs).1 ∧ related (m.run s inputs).2 (m'.run t inputs).2 := by
  induction inputs generalizing s t with
  | nil => exact ⟨rfl, hs⟩
  | cons i rest ih =>
      obtain ⟨hanswer, hnext⟩ := h s t i hs
      obtain ⟨hanswers, hlast⟩ := ih hnext
      refine ⟨?_, hlast⟩
      show (m s i).1 :: _ = (m' t i).1 :: _
      rw [hanswer]
      exact congrArg _ hanswers

end Machine

end InMemoryFuzzing.Base

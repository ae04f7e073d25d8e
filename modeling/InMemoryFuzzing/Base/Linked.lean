import Mathlib.Data.List.Nodup
import Mathlib.Logic.Function.Basic

/-!
# Lists linked in a heap

A heap leads from addresses to records, and a record to the next one. A path is the way from a
pointer to another one: the records that are passed, each with its address and the value in it. Null
leads nowhere, so a list is a path that ends in null.

* `LinkedPath.append_iff` — a path may be cut between any two records.
* `LinkedPath.frame` — records that are not passed do not matter.
* `LinkedPath.nodup` — a list passes no record twice, so it has no cycle.
* `LinkedPath.redirect` — writing into the last record moves the end of a path.
-/

namespace InMemoryFuzzing.Base

/-- Records with a value and a pointer to the next record. -/
class LinkedRecord (ρ : Type*) (ι ν : outParam Type*) where
  value : ρ → ν
  next : ρ → Option ι

open LinkedRecord

variable {ι ρ ν : Type*} [LinkedRecord ρ ι ν]

/-- The records on the way from a pointer to another one. -/
inductive LinkedPath (heap : ι → Option ρ) : Option ι → List (ι × ν) → Option ι → Prop
  | nil (p : Option ι) : LinkedPath heap p [] p
  | cons {a : ι} {record : ρ} {entries : List (ι × ν)} {q : Option ι} (h : heap a = some record)
      (hrest : LinkedPath heap (next record) entries q) :
      LinkedPath heap (some a) ((a, value record) :: entries) q

variable {heap heap' : ι → Option ρ} {p q : Option ι} {entries : List (ι × ν)}

namespace LinkedPath

theorem eq_of_nil (h : LinkedPath heap p [] q) : p = q := by
  cases h
  rfl

theorem nil_of_null (h : LinkedPath heap none entries q) : entries = [] := by
  cases h
  rfl

/-- A path is cut behind its front. -/
theorem append_iff {front back : List (ι × ν)} : LinkedPath heap p (front ++ back) q ↔
    ∃ mid, LinkedPath heap p front mid ∧ LinkedPath heap mid back q := by
  induction front generalizing p with
  | nil =>
      constructor
      · intro h
        exact ⟨p, .nil p, h⟩
      · rintro ⟨mid, hfront, hback⟩
        rwa [hfront.eq_of_nil]
  | cons e front ih =>
      constructor
      · intro h
        cases h with
        | cons hrecord hrest =>
            obtain ⟨mid, hfront, hback⟩ := ih.mp hrest
            exact ⟨mid, .cons hrecord hfront, hback⟩
      · rintro ⟨mid, hfront, hback⟩
        cases hfront with
        | cons hrecord hrest => exact .cons hrecord (ih.mpr ⟨mid, hrest, hback⟩)

theorem append {front back : List (ι × ν)} {mid : Option ι} (hfront : LinkedPath heap p front mid)
    (hback : LinkedPath heap mid back q) : LinkedPath heap p (front ++ back) q :=
  append_iff.mpr ⟨mid, hfront, hback⟩

/-- The record at an address that is passed. -/
theorem record_of_cons {e : ι × ν} (h : LinkedPath heap p (e :: entries) q) :
    p = some e.1 ∧ ∃ record, heap e.1 = some record ∧ value record = e.2 ∧
      LinkedPath heap (next record) entries q := by
  cases h with
  | cons hrecord hrest => exact ⟨rfl, _, hrecord, rfl, hrest⟩

/-- The way from a record to the next one. -/
theorem next_of_cons {e e' : ι × ν} (h : LinkedPath heap p (e :: e' :: entries) q) :
    ∃ record, heap e.1 = some record ∧ next record = some e'.1 ∧
      LinkedPath heap (some e'.1) (e' :: entries) q := by
  obtain ⟨-, record, hrecord, -, hrest⟩ := h.record_of_cons
  have hnext := hrest.record_of_cons.1
  rw [hnext] at hrest
  exact ⟨record, hrecord, hnext, hrest⟩

/-- A path only depends on the records it passes. -/
theorem frame (h : LinkedPath heap p entries q) (hsame : ∀ e ∈ entries, heap' e.1 = heap e.1) :
    LinkedPath heap' p entries q := by
  induction h with
  | nil p => exact .nil p
  | cons hrecord _ ih =>
      obtain ⟨hfirst, hrest⟩ := List.forall_mem_cons.mp hsame
      exact .cons (hfirst.trans hrecord) (ih hrest)

/-- The records that are passed are there. -/
theorem isSome (h : LinkedPath heap p entries q) : ∀ e ∈ entries, (heap e.1).isSome = true := by
  induction h with
  | nil => simp
  | cons hrecord _ ih =>
      refine List.forall_mem_cons.mpr ⟨?_, ih⟩
      rw [hrecord]
      rfl

/-- A block that is free is not passed. -/
theorem not_mem_of_none {a : ι} (h : LinkedPath heap p entries q) (ha : heap a = none) :
    a ∉ entries.map Prod.fst := by
  intro hmem
  obtain ⟨e, he, rfl⟩ := List.mem_map.mp hmem
  have hsome := h.isSome e he
  rw [ha] at hsome
  cases hsome

/-! ## Lists -/

/-- From a pointer there is one list. -/
theorem unique {other : List (ι × ν)} (h : LinkedPath heap p entries none)
    (hother : LinkedPath heap p other none) : entries = other := by
  induction entries generalizing p other with
  | nil =>
      cases h
      exact hother.nil_of_null.symm
  | cons e entries ih =>
      cases h with
      | cons hrecord hrest =>
          cases hother with
          | cons hrecord' hrest' =>
              cases hrecord.symm.trans hrecord'
              rw [ih hrest hrest']

/-- A list passes no record twice: from both places the same list would follow. -/
theorem nodup (h : LinkedPath heap p entries none) : (entries.map Prod.fst).Nodup := by
  induction entries generalizing p with
  | nil => exact List.nodup_nil
  | cons e entries ih =>
      obtain ⟨rfl, record, hrecord, hvalue, hrest⟩ := h.record_of_cons
      rw [List.map_cons, List.nodup_cons]
      refine ⟨?_, ih hrest⟩
      intro hmem
      obtain ⟨e', he', haddress⟩ := List.mem_map.mp hmem
      obtain ⟨front, back, rfl⟩ := List.append_of_mem he'
      obtain ⟨mid, -, hagain⟩ := append_iff.mp hrest
      obtain ⟨rfl, -⟩ := hagain.record_of_cons
      rw [haddress] at hagain
      have hlength := congrArg List.length (h.unique hagain)
      simp only [List.length_cons, List.length_append] at hlength
      omega

/-- A record of a list is not among the others. -/
theorem not_mem_others {front back : List (ι × ν)} {e : ι × ν}
    (h : LinkedPath heap p (front ++ e :: back) none) : e.1 ∉ (front ++ back).map Prod.fst := by
  have hnodup := h.nodup
  rw [List.map_append, List.map_cons, List.nodup_middle, List.nodup_cons, ← List.map_append]
    at hnodup
  exact hnodup.1

/-! ## Writing -/

variable [DecidableEq ι]

/-- A record that is not passed may be written, or freed. -/
theorem update_other {a : ι} (h : LinkedPath heap p entries q) (ha : a ∉ entries.map Prod.fst)
    (content : Option ρ) : LinkedPath (Function.update heap a content) p entries q := by
  refine h.frame ?_
  intro e he
  apply Function.update_of_ne
  rintro rfl
  exact ha (List.mem_map_of_mem he)

/-- Another pointer to the next record in the last record of a path. -/
theorem redirect {front : List (ι × ν)} {e : ι × ν} (h : LinkedPath heap p (front ++ [e]) q)
    (he : e.1 ∉ front.map Prod.fst) {record : ρ} (hvalue : value record = e.2) :
    LinkedPath (Function.update heap e.1 (some record)) p (front ++ [e]) (next record) := by
  obtain ⟨mid, hfront, hlast⟩ := append_iff.mp h
  obtain ⟨rfl, -⟩ := hlast.record_of_cons
  refine (hfront.update_other he _).append ?_
  have hrecord : Function.update heap e.1 (some record) e.1 = some record :=
    Function.update_self ..
  have hcell := LinkedPath.cons hrecord (.nil (next record))
  rwa [hvalue] at hcell

end LinkedPath

end InMemoryFuzzing.Base

import Mathlib.Data.List.Infix
import Mathlib.Data.List.Nodup

/-!
# Pieces of a concatenation

A text is handed over in chunks, by one event after the other; `f` is the chunk of an event.
What lies in one piece in the text lies in the chunks of the events from the first to the last
one with elements of it (`infix_flatMap_cover`). If no element occurs twice, an event is the
only one with its elements (`event_unique`), and a piece is at one place only
(`piece_unique`).
-/

namespace InMemoryFuzzing.Base

variable {α ε : Type} {f : ε → List α}

/-- Each of these events has an element of the piece, or none at all. -/
def Covers (f : ε → List α) (cover : List ε) (piece : List α) : Prop :=
  ∀ e ∈ cover, f e ≠ [] → ∃ a ∈ f e, a ∈ piece

theorem covers_nil (piece : List α) : Covers f [] piece := by
  intro e he
  cases he

theorem Covers.cons {cover : List ε} {e : ε} {more piece : List α} (h : Covers f cover more)
    (hmore : ∀ a ∈ more, a ∈ piece) (he : f e ≠ [] → ∃ a ∈ f e, a ∈ piece) :
    Covers f (e :: cover) piece := by
  intro other hother hne
  rcases List.mem_cons.mp hother with rfl | htail
  · exact he hne
  · obtain ⟨a, ha, hpiece⟩ := h other htail hne
    exact ⟨a, ha, hmore a hpiece⟩

/-- A piece at the front. -/
theorem prefix_flatMap_cover {events : List ε} {piece back : List α}
    (h : events.flatMap f = piece ++ back) :
    ∃ cover rest, events = cover ++ rest ∧ piece <+: cover.flatMap f ∧ Covers f cover piece := by
  induction events generalizing piece with
  | nil =>
      obtain ⟨rfl, -⟩ := List.append_eq_nil_iff.mp h.symm
      exact ⟨[], [], rfl, List.prefix_refl [], covers_nil []⟩
  | cons e events ih =>
      by_cases hempty : piece = []
      · exact ⟨[], e :: events, rfl, hempty ▸ List.prefix_refl [], covers_nil piece⟩
      rw [List.flatMap_cons] at h
      rcases List.append_eq_append_iff.mp h with ⟨more, hpiece, hmore⟩ | ⟨behind, hchunk, -⟩
      · -- the chunk ends inside the piece
        obtain ⟨cover, rest, rfl, ⟨tail, htail⟩, hcovers⟩ := ih hmore
        refine ⟨e :: cover, rest, rfl, ⟨tail, ?_⟩, ?_⟩
        · rw [List.flatMap_cons, hpiece, List.append_assoc, htail]
        · refine hcovers.cons (fun a ha => hpiece ▸ List.mem_append_right _ ha) ?_
          intro hne
          obtain ⟨a, ha⟩ := List.exists_mem_of_ne_nil _ hne
          exact ⟨a, ha, hpiece ▸ List.mem_append_left more ha⟩
      · refine ⟨[e], events, rfl, ⟨behind, ?_⟩, ?_⟩
        · rw [List.flatMap_singleton, hchunk]
        · refine (covers_nil []).cons (fun a ha => by cases ha) ?_
          intro _
          obtain ⟨a, ha⟩ := List.exists_mem_of_ne_nil piece hempty
          exact ⟨a, hchunk ▸ List.mem_append_left behind ha, ha⟩

theorem infix_flatMap_cover {events : List ε} {piece : List α} (h : piece <:+: events.flatMap f) :
    ∃ before cover after, events = before ++ cover ++ after ∧ piece <:+: cover.flatMap f ∧
      Covers f cover piece := by
  by_cases hempty : piece = []
  · exact ⟨[], [], events, rfl, hempty ▸ List.infix_refl [], covers_nil piece⟩
  obtain ⟨front, back, h⟩ := h
  induction events generalizing front with
  | nil =>
      obtain ⟨hfront, -⟩ := List.append_eq_nil_iff.mp h
      exact absurd (List.append_eq_nil_iff.mp hfront).2 hempty
  | cons e events ih =>
      rw [List.flatMap_cons, List.append_assoc] at h
      rcases List.append_eq_append_iff.mp h with ⟨start, hchunk, hstart⟩ | ⟨more, rfl, hmore⟩
      · rcases List.append_eq_append_iff.mp hstart with ⟨behind, rfl, -⟩ | ⟨more, hpiece, hmore⟩
        · refine ⟨[], [e], events, rfl, ⟨front, behind, ?_⟩, ?_⟩
          · rw [List.flatMap_singleton, hchunk, List.append_assoc]
          · refine (covers_nil []).cons (fun a ha => by cases ha) ?_
            intro _
            obtain ⟨a, ha⟩ := List.exists_mem_of_ne_nil piece hempty
            exact ⟨a, hchunk ▸ List.mem_append_right _ (List.mem_append_left _ ha), ha⟩
        · -- the piece starts in this chunk and goes on behind it
          obtain ⟨cover, rest, rfl, ⟨tail, htail⟩, hcovers⟩ := prefix_flatMap_cover hmore
          by_cases hnone : start = []
          · rw [hnone, List.nil_append] at hpiece
            subst hpiece
            exact ⟨[e], cover, rest, rfl, ⟨[], tail, htail⟩, hcovers⟩
          · refine ⟨[], e :: cover, rest, rfl, ⟨front, tail, ?_⟩, ?_⟩
            · rw [List.flatMap_cons, ← htail, hchunk, hpiece]
              simp only [List.append_assoc]
            · refine hcovers.cons (fun a ha => hpiece ▸ List.mem_append_right start ha) ?_
              intro _
              obtain ⟨a, ha⟩ := List.exists_mem_of_ne_nil start hnone
              exact ⟨a, hchunk ▸ List.mem_append_right front ha,
                hpiece ▸ List.mem_append_left more ha⟩
      -- the piece starts behind this chunk
      · obtain ⟨before, cover, after, rfl, hpiece, hcovers⟩ :=
          ih more (by rw [List.append_assoc]; exact hmore.symm)
        exact ⟨e :: before, cover, after, rfl, hpiece, hcovers⟩

/-- The event of an element. -/
theorem event_unique {events a b c d : List ε} {x y : ε} (hnodup : (events.flatMap f).Nodup)
    (hx : events = a ++ x :: b) (hy : events = c ++ y :: d) {e : α} (hex : e ∈ f x)
    (hey : e ∈ f y) : a = c := by
  have hlater : ∀ {c d : List ε} {y : ε}, e ∈ f y → e ∈ (c ++ y :: d).flatMap f := by
    intro c d y hey
    exact List.mem_flatMap.mpr ⟨y, List.mem_append_right c List.mem_cons_self, hey⟩
  induction a generalizing c events with
  | nil =>
      cases c with
      | nil => rfl
      | cons z c =>
          rw [hx] at hy hnodup
          obtain ⟨-, rfl⟩ := List.cons_eq_cons.mp hy
          rw [List.nil_append, List.flatMap_cons] at hnodup
          exact absurd rfl ((List.nodup_append.mp hnodup).2.2 e hex e (hlater hey))
  | cons z a ih =>
      cases c with
      | nil =>
          rw [hy] at hx hnodup
          obtain ⟨-, rfl⟩ := List.cons_eq_cons.mp hx
          rw [List.nil_append, List.flatMap_cons] at hnodup
          exact absurd rfl ((List.nodup_append.mp hnodup).2.2 e hey e (hlater hex))
      | cons w c =>
          rw [hx] at hy hnodup
          obtain ⟨rfl, hrest⟩ := List.cons_eq_cons.mp hy
          rw [List.cons_append, List.flatMap_cons] at hnodup
          rw [ih (List.nodup_append.mp hnodup).2.1 rfl hrest]

theorem event_unique_mem {events : List ε} {x y : ε} (hnodup : (events.flatMap f).Nodup)
    (hx : x ∈ events) (hy : y ∈ events) {e : α} (hex : e ∈ f x) (hey : e ∈ f y) : x = y := by
  obtain ⟨a, b, hxs⟩ := List.append_of_mem hx
  obtain ⟨c, d, hys⟩ := List.append_of_mem hy
  have hfront : a = c := event_unique hnodup hxs hys hex hey
  rw [hys, hfront] at hxs
  exact (List.cons_eq_cons.mp (List.append_cancel_left hxs)).1.symm

/-- The place of a piece. -/
theorem piece_unique {front back front' back' piece : List α} (hne : piece ≠ [])
    (hnodup : (front ++ piece ++ back).Nodup)
    (h : front ++ piece ++ back = front' ++ piece ++ back') : front = front' := by
  obtain ⟨e, rest, rfl⟩ := List.exists_cons_of_ne_nil hne
  rw [List.append_assoc, List.append_assoc, List.cons_append, List.cons_append] at h
  rw [List.append_assoc, List.cons_append] at hnodup
  obtain ⟨-, htail, hdisjoint⟩ := List.nodup_append.mp hnodup
  have hfront : e ∉ front := fun hmem => hdisjoint e hmem e List.mem_cons_self rfl
  exact ((List.append_cons_inj_of_notMem hfront (List.nodup_cons.mp htail).1).mp h).1

end InMemoryFuzzing.Base

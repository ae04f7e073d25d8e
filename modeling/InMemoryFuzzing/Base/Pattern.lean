import Mathlib.Data.List.Infix
import Mathlib.Data.List.TakeWhile

/-!
# Patterns

A pattern is a sequence of pieces: a single element, or as many elements as possible. It is
matched with backtracking, the longest way first, and searched for from the left; the matcher
yields what the captured pieces have taken.

* `Accepts` — the relation between a pattern and a text it matches the front of, without
  regard to the order in which the ways are tried;
* `search_isSome` — a search succeeds if and only if the pattern is accepted somewhere.
-/

namespace InMemoryFuzzing.Base

inductive Piece (α : Type)
  | one (p : α → Bool)
  | star (p : α → Bool) (captured : Bool)
  | plus (p : α → Bool) (captured : Bool)

/-- The pieces one after the other. -/
abbrev Pattern (α : Type) := List (Piece α)

namespace Pattern

variable {α β : Type}

/-- As many elements with `p` as possible, such that `next` succeeds behind them. -/
def greedy (p : α → Bool) (next : List α → Option β) : List α → Option (List α × β)
  | [] => (next []).map fun r => ([], r)
  | a :: text =>
      match if p a then greedy p next text else none with
      | some (front, r) => some (a :: front, r)
      | none => (next (a :: text)).map fun r => ([], r)

/-- What a piece has taken, in front of the other groups. -/
def group (captured : Bool) (taken : List α × List (List α)) : List (List α) :=
  if captured then taken.1 :: taken.2 else taken.2

/-- The groups, if the pattern matches the front of the text. -/
def matchFront : Pattern α → List α → Option (List (List α))
  | [], _ => some []
  | .one p :: rest, text =>
      match text with
      | [] => none
      | a :: text => if p a then matchFront rest text else none
  | .star p captured :: rest, text => (greedy p (matchFront rest) text).map (group captured)
  | .plus p captured :: rest, text =>
      match text with
      | [] => none
      | a :: text =>
          if p a then (greedy p (matchFront rest) text).map fun (front, groups) =>
            group captured (a :: front, groups)
          else none

/-- The groups of the leftmost match. -/
def search (pattern : Pattern α) (text : List α) : Option (List (List α)) :=
  text.tails.findSome? pattern.matchFront

/-- The pattern matches the front of the text. -/
inductive Accepts : Pattern α → List α → Prop
  | nil (text : List α) : Accepts [] text
  | one {p : α → Bool} {rest : Pattern α} {a : α} {text : List α} (ha : p a = true)
      (hrest : Accepts rest text) : Accepts (.one p :: rest) (a :: text)
  | star {p : α → Bool} {captured : Bool} {rest : Pattern α} {front text : List α}
      (hfront : ∀ a ∈ front, p a = true) (hrest : Accepts rest text) :
      Accepts (.star p captured :: rest) (front ++ text)
  | plus {p : α → Bool} {captured : Bool} {rest : Pattern α} {a : α} {front text : List α}
      (ha : p a = true) (hfront : ∀ a ∈ front, p a = true) (hrest : Accepts rest text) :
      Accepts (.plus p captured :: rest) (a :: (front ++ text))

/-- The pattern matches somewhere in the text. -/
def Occurs (pattern : Pattern α) (text : List α) : Prop :=
  ∃ front back, text = front ++ back ∧ pattern.Accepts back

/-- `greedy` finds a way if there is one. -/
theorem greedy_isSome (p : α → Bool) (next : List α → Option β) (text : List α) :
    (greedy p next text).isSome = true ↔ ∃ front back, text = front ++ back ∧
      (∀ a ∈ front, p a = true) ∧ (next back).isSome = true := by
  induction text with
  | nil =>
      rw [greedy, Option.isSome_map]
      constructor
      · intro h
        exact ⟨[], [], rfl, fun _ ha => absurd ha List.not_mem_nil, h⟩
      · rintro ⟨front, back, heq, -, h⟩
        obtain ⟨-, rfl⟩ := List.append_eq_nil_iff.mp heq.symm
        exact h
  | cons a text ih =>
      rw [greedy]
      constructor
      · intro h
        split at h
        · rename_i taken front r htaken
          obtain ⟨ha, hgreedy⟩ := Option.ite_none_right_eq_some.mp htaken
          obtain ⟨front, back, rfl, hfront, hback⟩ := ih.mp (hgreedy ▸ rfl)
          exact ⟨a :: front, back, rfl, List.forall_mem_cons.mpr ⟨ha, hfront⟩, hback⟩
        · rw [Option.isSome_map] at h
          exact ⟨[], a :: text, rfl, fun _ hb => absurd hb List.not_mem_nil, h⟩
      · rintro ⟨front, back, heq, hfront, hback⟩
        split
        · rfl
        · rename_i hnone
          rw [Option.isSome_map]
          cases front with
          -- the longer ways have failed, so what is left is to take nothing
          | nil =>
              rw [heq]
              exact hback
          | cons b front =>
              obtain ⟨rfl, rfl⟩ := List.cons_eq_cons.mp heq
              obtain ⟨ha, hrest⟩ := List.forall_mem_cons.mp hfront
              have hsome := ih.mpr ⟨front, back, rfl, hrest, hback⟩
              rw [if_pos ha] at hnone
              rw [hnone] at hsome
              cases hsome

theorem matchFront_isSome (pattern : Pattern α) (text : List α) :
    (pattern.matchFront text).isSome = true ↔ pattern.Accepts text := by
  induction pattern generalizing text with
  | nil => exact ⟨fun _ => .nil text, fun _ => rfl⟩
  | cons piece rest ih =>
      cases piece with
      | one p =>
          cases text with
          | nil => exact ⟨fun h => (by cases h), fun h => (by cases h)⟩
          | cons a text =>
              rw [matchFront]
              by_cases ha : p a = true
              · rw [if_pos ha, ih]
                constructor
                · exact fun h => .one ha h
                · intro h
                  cases h with
                  | one _ hrest => exact hrest
              · rw [if_neg ha]
                constructor
                · intro h
                  cases h
                · intro h
                  cases h with
                  | one htrue _ => exact absurd htrue ha
      | star p captured =>
          rw [matchFront, Option.isSome_map, greedy_isSome]
          constructor
          · rintro ⟨front, back, rfl, hfront, hback⟩
            exact .star hfront ((ih back).mp hback)
          · intro h
            cases h with
            | star hfront hrest => exact ⟨_, _, rfl, hfront, (ih _).mpr hrest⟩
      | plus p captured =>
          cases text with
          | nil => exact ⟨fun h => (by cases h), fun h => (by cases h)⟩
          | cons a text =>
              rw [matchFront]
              by_cases ha : p a = true
              · rw [if_pos ha, Option.isSome_map, greedy_isSome]
                constructor
                · rintro ⟨front, back, rfl, hfront, hback⟩
                  exact .plus ha hfront ((ih back).mp hback)
                · intro h
                  cases h with
                  | plus _ hfront hrest => exact ⟨_, _, rfl, hfront, (ih _).mpr hrest⟩
              · rw [if_neg ha]
                constructor
                · intro h
                  cases h
                · intro h
                  cases h with
                  | plus htrue _ _ => exact absurd htrue ha

/-- A search succeeds if and only if the pattern matches somewhere. -/
theorem search_isSome (pattern : Pattern α) (text : List α) :
    (pattern.search text).isSome = true ↔ pattern.Occurs text := by
  rw [search, List.findSome?_isSome_iff]
  constructor
  -- the places to begin at are the tails of the text
  · rintro ⟨back, hback, hsome⟩
    obtain ⟨front, rfl⟩ := (List.mem_tails _ _).mp hback
    exact ⟨front, back, rfl, (matchFront_isSome pattern back).mp hsome⟩
  · rintro ⟨front, back, rfl, haccepts⟩
    exact ⟨back, (List.mem_tails _ _).mpr ⟨front, rfl⟩, (matchFront_isSome pattern back).mpr haccepts⟩

/-! ## What is captured -/

/-- What a repetition takes, and what is left behind it. -/
theorem greedy_some {p : α → Bool} {next : List α → Option β} {text front : List α} {r : β}
    (h : greedy p next text = some (front, r)) :
    ∃ back, text = front ++ back ∧ (∀ a ∈ front, p a = true) ∧ next back = some r := by
  induction text generalizing front with
  | nil =>
      obtain ⟨r', hnext, heq⟩ := Option.map_eq_some_iff.mp h
      cases heq
      exact ⟨[], rfl, fun _ ha => absurd ha List.not_mem_nil, hnext⟩
  | cons a text ih =>
      rw [greedy] at h
      split at h
      · rename_i htaken
        cases h
        obtain ⟨ha, hgreedy⟩ := Option.ite_none_right_eq_some.mp htaken
        obtain ⟨back, rfl, hfront, hnext⟩ := ih hgreedy
        exact ⟨back, rfl, List.forall_mem_cons.mpr ⟨ha, hfront⟩, hnext⟩
      · obtain ⟨r', hnext, heq⟩ := Option.map_eq_some_iff.mp h
        cases heq
        exact ⟨a :: text, rfl, fun _ ha => absurd ha List.not_mem_nil, hnext⟩

/-- A repetition that goes on to an element behind which there is no way any more. -/
theorem greedy_run {p : α → Bool} {next : List α → Option β} {front back : List α} {a : α} {r : β}
    (hfront : ∀ b ∈ front, p b = true) (hnext : next (a :: back) = some r)
    (hback : greedy p next back = none) : greedy p next (front ++ a :: back) = some (front, r) := by
  induction front with
  | nil =>
      rw [List.nil_append, greedy, hback, ite_self, hnext]
      rfl
  | cons b front ih =>
      obtain ⟨hb, hrest⟩ := List.forall_mem_cons.mp hfront
      rw [List.cons_append, greedy, if_pos hb, ih hrest]

/-- A repetition ends at an element that is none of its elements. -/
theorem greedy_stop {p : α → Bool} {next : List α → Option β} {front back : List α} {a : α} {r : β}
    (hfront : ∀ b ∈ front, p b = true) (ha : p a = false) (hnext : next (a :: back) = some r) :
    greedy p next (front ++ a :: back) = some (front, r) := by
  induction front with
  | nil => simp [greedy, ha, hnext]
  | cons b front ih =>
      obtain ⟨hb, hrest⟩ := List.forall_mem_cons.mp hfront
      rw [List.cons_append, greedy, if_pos hb, ih hrest]

/-- Single elements in front of a pattern. -/
theorem matchFront_ones {rest : Pattern α} {ps : List (α → Bool)} {text : List α}
    {groups : List (List α)} (h : matchFront (ps.map Piece.one ++ rest) text = some groups) :
    ∃ front back, text = front ++ back ∧ matchFront rest back = some groups := by
  induction ps generalizing text with
  | nil => exact ⟨[], text, rfl, h⟩
  | cons p ps ih =>
      cases text with
      | nil => cases h
      | cons a text =>
          obtain ⟨-, hrest⟩ := Option.ite_none_right_eq_some.mp h
          obtain ⟨front, back, rfl, hback⟩ := ih hrest
          exact ⟨a :: front, back, rfl, hback⟩

/-- A text matches itself. -/
theorem matchFront_same {rest : Pattern α} {p : α → α → Bool} (h : ∀ a, p a a = true)
    (front back : List α) :
    matchFront (front.map (fun a => Piece.one (p a)) ++ rest) (front ++ back) =
      matchFront rest back := by
  induction front with
  | nil => rfl
  | cons a front ih =>
      show (if p a a = true then _ else none) = _
      rw [if_pos (h a)]
      exact ih

/-- Single elements in front of a pattern that matches. -/
theorem accepts_ones {rest : Pattern α} {ps : List (α → Bool)} {text : List α}
    (h : Accepts (ps.map Piece.one ++ rest) text) : ∃ front back, text = front ++ back ∧
      List.Forall₂ (fun p a => p a = true) ps front ∧ Accepts rest back := by
  induction ps generalizing text with
  | nil => exact ⟨[], text, rfl, .nil, h⟩
  | cons p ps ih =>
      cases h with
      | one ha hrest =>
          obtain ⟨front, back, rfl, hfront, hback⟩ := ih hrest
          exact ⟨_ :: front, back, rfl, .cons ha hfront, hback⟩

/-- A repetition in front of what always succeeds takes all it can. -/
theorem greedy_total {p : α → Bool} {next : List α → Option β} {f : List α → β}
    (h : ∀ text, next text = some (f text)) (text : List α) :
    greedy p next text = some (text.takeWhile p, f (text.dropWhile p)) := by
  induction text with
  | nil => simp [greedy, h]
  | cons a text ih =>
      cases ha : p a with
      | true => simp [greedy, ha, ih]
      | false => simp [greedy, ha, h]

/-- The rest of the text is captured. -/
theorem matchFront_rest (text : List α) : matchFront [.star (fun _ => true) true] text = some [text] := by
  have hgreedy : greedy (fun _ => true) (matchFront []) text = some (text.takeWhile _, []) :=
    greedy_total (f := fun _ => []) (fun _ => rfl) text
  rw [List.takeWhile_eq_self_iff.mpr fun _ _ => rfl] at hgreedy
  rw [matchFront, hgreedy]
  rfl

/-- The rest of the text behind a repetition is captured. -/
theorem matchFront_star_rest (p : α → Bool) (text : List α) :
    matchFront [.star p false, .star (fun _ => true) true] text = some [text.dropWhile p] := by
  rw [matchFront, greedy_total (f := fun text => [text]) matchFront_rest]
  rfl

/-- The groups of a search are those of the pattern at some place. -/
theorem search_some {pattern : Pattern α} {text : List α} {groups : List (List α)}
    (h : pattern.search text = some groups) :
    ∃ front back, text = front ++ back ∧ pattern.matchFront back = some groups := by
  obtain ⟨back, hback, hmatch⟩ := List.exists_of_findSome?_eq_some h
  obtain ⟨front, rfl⟩ := (List.mem_tails _ _).mp hback
  exact ⟨front, back, rfl, hmatch⟩

/-- A match at the beginning is the leftmost. -/
theorem search_of_matchFront {pattern : Pattern α} {text : List α} {groups : List (List α)}
    (h : pattern.matchFront text = some groups) : pattern.search text = some groups := by
  cases text with
  | nil => simp [search, h]
  | cons a text => simp [search, h]

/-- A repetition in front of an element that is none of its elements. -/
theorem matchFront_star_stop {p : α → Bool} {captured : Bool} {rest : Pattern α} {front back : List α}
    {a : α} {groups : List (List α)} (hfront : ∀ b ∈ front, p b = true) (ha : p a = false)
    (h : matchFront rest (a :: back) = some groups) :
    matchFront (.star p captured :: rest) (front ++ a :: back) =
      some (group captured (front, groups)) := by
  rw [matchFront, greedy_stop hfront ha h]
  rfl

theorem matchFront_plus_stop {p : α → Bool} {captured : Bool} {rest : Pattern α} {front back : List α}
    {a : α} {groups : List (List α)} (hne : front ≠ []) (hfront : ∀ b ∈ front, p b = true)
    (ha : p a = false) (h : matchFront rest (a :: back) = some groups) :
    matchFront (.plus p captured :: rest) (front ++ a :: back) =
      some (group captured (front, groups)) := by
  cases front with
  | nil => exact absurd rfl hne
  | cons b front =>
      rw [List.forall_mem_cons] at hfront
      rw [List.cons_append, matchFront, if_pos hfront.1, greedy_stop hfront.2 ha h]
      rfl

/-- How many pieces are captured. -/
def captures : Pattern α → Nat
  | [] => 0
  | .one _ :: rest => captures rest
  | .star _ captured :: rest => captures rest + captured.toNat
  | .plus _ captured :: rest => captures rest + captured.toNat

theorem captures_append (front back : Pattern α) :
    captures (front ++ back) = captures front + captures back := by
  induction front with
  | nil => simp [captures]
  | cons piece front ih => cases piece <;> simp [captures, ih, Nat.add_right_comm]

theorem captures_ones (ps : List (α → Bool)) : captures (ps.map Piece.one) = 0 := by
  induction ps with
  | nil => rfl
  | cons p ps ih => exact ih

theorem group_length (captured : Bool) (taken : List α × List (List α)) :
    (group captured taken).length = taken.2.length + captured.toNat := by
  cases captured <;> rfl

/-- There are as many groups as captured pieces. -/
theorem matchFront_length {pattern : Pattern α} {text : List α} {groups : List (List α)}
    (h : pattern.matchFront text = some groups) : groups.length = pattern.captures := by
  induction pattern generalizing text groups with
  | nil =>
      cases h
      rfl
  | cons piece rest ih =>
      cases piece with
      | one p =>
          cases text with
          | nil => cases h
          | cons a text =>
              obtain ⟨-, hrest⟩ := Option.ite_none_right_eq_some.mp h
              exact ih hrest
      | star p captured =>
          obtain ⟨taken, htaken, rfl⟩ := Option.map_eq_some_iff.mp h
          obtain ⟨_, -, -, hrest⟩ := greedy_some htaken
          rw [group_length, ih hrest, captures]
      | plus p captured =>
          cases text with
          | nil => cases h
          | cons a text =>
              obtain ⟨-, hplus⟩ := Option.ite_none_right_eq_some.mp h
              obtain ⟨⟨_, others⟩, htaken, rfl⟩ := Option.map_eq_some_iff.mp hplus
              obtain ⟨_, -, -, hrest⟩ := greedy_some htaken
              rw [group_length, ih hrest, captures]

/-- A pattern without captured pieces that is accepted. -/
theorem matchFront_nil {pattern : Pattern α} (hcaptures : pattern.captures = 0) {text : List α}
    (h : pattern.Accepts text) : pattern.matchFront text = some [] := by
  obtain ⟨groups, hgroups⟩ := Option.isSome_iff_exists.mp ((matchFront_isSome _ _).mpr h)
  have hlength := matchFront_length hgroups
  rw [hcaptures, List.length_eq_zero_iff] at hlength
  rw [hgroups, hlength]

end Pattern

end InMemoryFuzzing.Base

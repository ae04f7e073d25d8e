import InMemoryFuzzing.Gdb.ResponseHandlers
import Mathlib.Data.List.Forall2

/-!
# Texts in regular expressions

A text in a pattern with `IgnoreCase` matches itself, and what has the same letters in lower case.
-/

namespace InMemoryFuzzing.Gdb

open Base Platform DotNet

/-- Lower case concerns letters: another ASCII character is equal to itself only. -/
def CharData.LettersOnly (chars : CharData) : Prop :=
  ∀ c d, d.toNat < 128 → d.isAlpha = false → chars.toLower c = chars.toLower d → c = d

/-- Lower case leaves the letters that are in lower case as they are. -/
def CharData.KeepsLower (chars : CharData) : Prop :=
  ∀ c : Char, c.isLower = true → chars.toLower c = c

/-- ASCII characters are in lower case and digits as they are everywhere. -/
structure CharData.Ascii (chars : CharData) : Prop where
  lower : ∀ c : Char, c.toNat < 128 → chars.toLower c = c.toLower
  digit : ∀ c : Char, c.toNat < 128 → chars.isDigit c = c.isDigit

namespace Regex

theorem text_eq (chars : CharData) (s : String) :
    text chars s = (s.toList.map fun c d => chars.toLower d == chars.toLower c).map Piece.one := by
  rw [text, List.map_map]
  rfl

theorem matchFront_text (chars : CharData) (s : String) (rest : Pattern Char) (back : List Char) :
    Pattern.matchFront (text chars s ++ rest) (s.toList ++ back) = Pattern.matchFront rest back :=
  Pattern.matchFront_same (p := fun c d => chars.toLower d == chars.toLower c) (by simp)
    s.toList back

variable {chars : CharData}

theorem captures_text (s : String) : (text chars s).captures = 0 := by
  rw [text_eq, Pattern.captures_ones]

/-- A text accepts itself. -/
theorem accepts_same (s : String) {rest : Pattern Char} {back : List Char}
    (h : rest.Accepts back) : Pattern.Accepts (text chars s ++ rest) (s.toList ++ back) := by
  rw [← Pattern.matchFront_isSome, matchFront_text, Pattern.matchFront_isSome]
  exact h

/-- What a text in a pattern matches. -/
theorem accepts_text {s : String} {rest : Pattern Char} {line : List Char}
    (h : Pattern.Accepts (text chars s ++ rest) line) : ∃ front back, line = front ++ back ∧
      List.Forall₂ (fun c d => chars.toLower d = chars.toLower c) s.toList front ∧
        Pattern.Accepts rest back := by
  rw [text_eq] at h
  obtain ⟨front, back, hline, hfront, hback⟩ := Pattern.accepts_ones h
  refine ⟨front, back, hline, ?_, hback⟩
  simpa [List.forall₂_map_left_iff] using hfront

theorem accepts_of_same {s : String} {rest : Pattern Char} {front back : List Char}
    (h : List.Forall₂ (fun c d => chars.toLower d = chars.toLower c) s.toList front)
    (hrest : Pattern.Accepts rest back) :
    Pattern.Accepts (text chars s ++ rest) (front ++ back) := by
  rw [text]
  generalize s.toList = letters at h
  induction h with
  | nil => exact hrest
  | cons hsame _ ih => exact .one (by simpa using hsame) ih

/-- A character that is no letter, in the place of a text, is in that text. -/
theorem mem_of_same (hchars : chars.LettersOnly) {c : Char} (hascii : c.toNat < 128)
    (hletter : c.isAlpha = false) {s front : List Char}
    (h : List.Forall₂ (fun c d => chars.toLower d = chars.toLower c) s front) (hc : c ∈ front) :
    c ∈ s := by
  induction h with
  | nil => cases hc
  | cons hsame _ ih =>
      rcases List.mem_cons.mp hc with rfl | htail
      · exact List.mem_cons.mpr (.inl (hchars _ _ hascii hletter hsame.symm).symm)
      · exact List.mem_cons_of_mem _ (ih htail)

theorem exists_of_same {c : Char} {s front : List Char}
    (h : List.Forall₂ (fun c d => chars.toLower d = chars.toLower c) s front) (hc : c ∈ s) :
    ∃ d ∈ front, chars.toLower d = chars.toLower c := by
  induction h with
  | nil => cases hc
  | cons hsame _ ih =>
      rcases List.mem_cons.mp hc with rfl | htail
      · exact ⟨_, List.mem_cons_self, hsame⟩
      · obtain ⟨d, hd, heq⟩ := ih htail
        exact ⟨d, List.mem_cons_of_mem _ hd, heq⟩

/-- Such a character matches nothing else. -/
theorem eq_of_same (hchars : chars.LettersOnly) {c : Char} (hascii : c.toNat < 128)
    (hletter : c.isAlpha = false) {front : List Char}
    (h : List.Forall₂ (fun c d => chars.toLower d = chars.toLower c) [c] front) : front = [c] := by
  cases h with
  | cons hsame hnil =>
      cases hnil
      rw [hchars _ c hascii hletter hsame]

theorem accepts_anything (text : List Char) : Pattern.Accepts [anything false] text := by
  have h : Pattern.Accepts [anything false] (text ++ []) := .star (fun _ _ => rfl) (.nil [])
  rwa [List.append_nil] at h

/-- A text with a letter that the line does not contain. -/
theorem search_missing {s : String} {rest : Pattern Char} {line : List Char} (c : Char)
    (hc : c ∈ s.toList) (hline : ∀ d ∈ line, chars.toLower d ≠ chars.toLower c) :
    (text chars s ++ rest).search line = none := by
  rw [← Option.not_isSome_iff_eq_none, Pattern.search_isSome]
  rintro ⟨front, back, rfl, haccepts⟩
  obtain ⟨taken, behind, rfl, hsame, -⟩ := accepts_text haccepts
  obtain ⟨d, hd, heq⟩ := exists_of_same hsame hc
  exact hline d (by simp [hd]) heq

/-- A text that is accepted in front of something else ends in front of a character that it does
not contain, if that is no letter. -/
theorem accepts_text_left (hchars : chars.LettersOnly) {s : String} {c : Char}
    (hascii : c.toNat < 128) (hletter : c.isAlpha = false) (hc : c ∉ s.toList)
    {front back : List Char}
    (h : Pattern.Accepts (text chars s ++ [anything false]) (front ++ c :: back)) :
    Pattern.Accepts (text chars s ++ [anything false]) front := by
  obtain ⟨taken, rest, hline, hsame, -⟩ := accepts_text h
  have htaken : c ∉ taken := fun hmem => hc (mem_of_same hchars hascii hletter hsame hmem)
  rcases List.append_eq_append_iff.mp hline with ⟨more, rfl, hmore⟩ | ⟨more, rfl, -⟩
  · cases more with
    | nil =>
        rw [List.append_nil] at hsame
        have haccepts := accepts_of_same hsame (accepts_anything [])
        rwa [List.append_nil] at haccepts
    | cons d more =>
        obtain ⟨rfl, -⟩ := List.cons_eq_cons.mp hmore
        exact absurd (List.mem_append_right front List.mem_cons_self) htaken
  · exact accepts_of_same hsame (accepts_anything more)

/-- It occurs on one side of that character. -/
theorem occurs_text_split (hchars : chars.LettersOnly) {s : String} {c : Char}
    (hascii : c.toNat < 128) (hletter : c.isAlpha = false) (hc : c ∉ s.toList)
    {front back : List Char}
    (h : Pattern.Occurs (text chars s ++ [anything false]) (front ++ c :: back)) :
    Pattern.Occurs (text chars s ++ [anything false]) front ∨
      Pattern.Occurs (text chars s ++ [anything false]) back := by
  obtain ⟨before, behind, hline, haccepts⟩ := h
  rcases List.append_eq_append_iff.mp hline with ⟨more, -, hmore⟩ | ⟨more, rfl, rfl⟩
  · cases more with
    | nil =>
        rw [List.nil_append] at hmore
        rw [← hmore, ← List.nil_append (c :: back)] at haccepts
        exact .inl ⟨front, [], (List.append_nil front).symm,
          accepts_text_left hchars hascii hletter hc haccepts⟩
    | cons d more => exact .inr ⟨more, behind, (List.cons_eq_cons.mp hmore).2, haccepts⟩
  · exact .inl ⟨before, more, rfl, accepts_text_left hchars hascii hletter hc haccepts⟩

end Regex

end InMemoryFuzzing.Gdb

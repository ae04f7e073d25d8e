import InMemoryFuzzing.Utils.Expansion

/-!
# The values of macros

The value of a macro is unescaped like a packet in quotation marks. `Unescape` begins its first
search behind the first character: an empty value makes `IndexOf` raise, and a backslash at the
beginning is kept, where any other one is left out unless it is behind a backslash
(`unescape_eq_self_iff`).
-/

namespace InMemoryFuzzing.Utils.SimpleFormatter

open Base Platform DotNet

variable {ε : Type}

/-! ## Texts with references -/

/-- A part of a text with references to macros. -/
inductive TextPart
  | literal (text : List Char)
  | reference (name : List Char)
  deriving DecidableEq, Repr

namespace TextPart

/-- A reference is the name in brackets and braces. -/
def piece : TextPart → FormatPiece
  | .literal text => .literal text
  | .reference name => .packet (macroPart name)

/-- The part with the value of the macro in the place of the reference. -/
def value (f : SimpleFormatter ε) : TextPart → List Char
  | .literal text => text
  | .reference name => stringifyParameter ((f.textMacros name).getD none)

/-- A literal without braces and backslashes, or the name of a macro that is defined, without
colons, braces, brackets and backslashes. -/
def Plain (f : SimpleFormatter ε) : TextPart → Prop
  | .literal text => ∀ c ∈ text, c ∉ ['{', '}', '\\']
  | .reference name =>
      (∀ c ∈ name, c ∉ [':', '{', '}', '[', ']', '\\']) ∧ (f.textMacros name).isSome = true

theorem Plain.piece {f : SimpleFormatter ε} {part : TextPart} (h : part.Plain f) :
    part.piece.Plain := by
  cases part with
  | literal text =>
      exact ⟨fun hmem => h _ hmem (by simp), fun hmem => h _ hmem (by simp)⟩
  | reference name =>
      refine ⟨?_, ?_⟩
      · intro hmem
        have hname : '}' ∈ name := by simpa [macroPart] using hmem
        exact h.1 _ hname (by simp)
      · rw [macroPart, ← List.cons_append, List.getLast?_append]
        simp

end TextPart

/-- An empty value raises where exceptions are thrown on, and a backslash is kept at the beginning
and behind another one. -/
def InsertedVerbatim (f : SimpleFormatter ε) (value : List Char) : Prop :=
  (value = [] → f.throwException = false) ∧
    ∀ i, value[i + 1]? = some '\\' → value[i]? = some '\\'

/-- A reference is replaced by the unescaped value. -/
theorem formatPacket_reference {f : SimpleFormatter ε} {name : List Char}
    (h : (TextPart.reference name).Plain f) (args : List Parameter) :
    f.formatPacket (macroPart name) args =
      unescape (TextPart.value f (.reference name)) := by
  have hcolon : ':' ∉ macroPart name := by
    intro hmem
    have hname : ':' ∈ name := by simpa [macroPart] using hmem
    exact h.1 _ hname (by simp)
  obtain ⟨value, hvalue⟩ := Option.isSome_iff_exists.mp h.2
  have hlookup : f.lookup (macroPart name) args = .ok (some (stringifyParameter value)) := by
    rw [lookup_macroPart, hvalue]
  rw [formatPacket_of_lookup (escapeSafeSplit_of_not_mem hcolon) hlookup, TextPart.value, hvalue,
    Option.getD_some]
  cases (unescape (stringifyParameter value) : Except (Raised ε) _) <;> rfl

theorem caught_unescape_iff (f : SimpleFormatter ε) (value : List Char) :
    f.caught (unescape value) = .ok value ↔ f.InsertedVerbatim value := by
  have hself : (unescape value : Except (Raised ε) _) = .ok value ↔ _ := unescape_eq_self_iff
  by_cases hempty : value = []
  · subst hempty
    rw [InsertedVerbatim, unescape_nil, caught]
    cases f.throwException <;> simp
  · have hcaught : f.caught (unescape value) = .ok value ↔
        (unescape value : Except (Raised ε) _) = .ok value := by
      cases hresult : (unescape value : Except (Raised ε) _) with
      | ok text => rfl
      | error e =>
          rw [caught]
          cases f.throwException <;> simp [Ne.symm hempty]
    rw [hcaught, hself, InsertedVerbatim]
    simp [hempty]

theorem caught_unescape_length {f : SimpleFormatter ε} {value result : List Char}
    (h : f.caught (unescape value) = .ok result) : result.length ≤ value.length := by
  cases hresult : (unescape value : Except (Raised ε) _) with
  | ok text =>
      rw [hresult] at h
      cases h
      exact unescapeFrom_length hresult
  | error e =>
      rw [hresult, caught] at h
      split at h
      · cases h
      · cases h
        exact Nat.zero_le _

theorem expandPiece_piece {f : SimpleFormatter ε} {part : TextPart} (h : part.Plain f)
    (args : List Parameter) :
    f.expandPiece args part.piece = match part with
      | .literal text => .ok text
      | .reference _ => f.caught (unescape (part.value f)) := by
  cases part with
  | literal text => rfl
  | reference name => rw [TextPart.piece, expandPiece, formatPacket_reference h]

/-- Every reference is replaced by the value, and nothing is raised, if and only if every value that
is referred to can be inserted verbatim. -/
theorem macros_verbatim_iff (f : SimpleFormatter ε) (args : List Parameter) {parts : List TextPart}
    (hparts : ∀ part ∈ parts, part.Plain f) :
    f.Formats (textOf (parts.map TextPart.piece)) args (.ok (parts.flatMap (TextPart.value f))) ↔
      ∀ name, TextPart.reference name ∈ parts →
        f.InsertedVerbatim (TextPart.value f (.reference name)) := by
  have hshort : ∀ part ∈ parts, ∀ result, f.expandPiece args part.piece = .ok result →
      result.length ≤ (part.value f).length := by
    intro part hpart result h
    rw [expandPiece_piece (hparts part hpart)] at h
    cases part with
    | literal text =>
        cases h
        exact Nat.le_refl _
    | reference name => exact caught_unescape_length h
  rw [formats_expected_iff f args (fun part hpart => (hparts part hpart).piece) hshort]
  constructor
  · intro h name hname
    have hpart := h _ hname
    rw [expandPiece_piece (hparts _ hname)] at hpart
    exact (caught_unescape_iff f _).mp hpart
  · intro h part hpart
    rw [expandPiece_piece (hparts part hpart)]
    cases part with
    | literal text => rfl
    | reference name => exact (caught_unescape_iff f _).mpr (h name hpart)

/-- A formatter with a macro for the arguments of a command, and with an empty one. -/
def sampleFormatter : SimpleFormatter Empty :=
  (new.defineTextMacro ['a'] (some ['-', 'v', ' ', '"', 'x', '"'])).defineTextMacro ['n'] (some [])

/-- A value with blanks and quotation marks. -/
theorem sample_macros_verbatim :
    sampleFormatter.Formats ['p', ' ', '{', '[', 'a', ']', '}'] []
      (.ok ['p', ' ', '-', 'v', ' ', '"', 'x', '"']) := by
  have hplain : ∀ part ∈ [TextPart.literal ['p', ' '], .reference ['a']],
      part.Plain sampleFormatter := by
    simp [TextPart.Plain, sampleFormatter, defineTextMacro]
  refine (macros_verbatim_iff sampleFormatter [] hplain).mpr ?_
  intro name hname
  obtain rfl : name = ['a'] := by simpa using hname
  refine ⟨fun hempty => absurd hempty (List.cons_ne_nil _ _), ?_⟩
  intro i hi
  have hmem := List.mem_of_getElem? hi
  simp [TextPart.value, sampleFormatter, defineTextMacro, stringifyParameter] at hmem

/-- `{[n]}`, whose value is empty, is not replaced by it. -/
theorem empty_value_raises :
    (TextPart.reference ['n']).Plain sampleFormatter ∧
    ¬sampleFormatter.Formats (textOf [(TextPart.reference ['n']).piece]) []
      (.ok (TextPart.value sampleFormatter (.reference ['n']))) := by
  have hplain : (TextPart.reference ['n']).Plain sampleFormatter := by
    simp [TextPart.Plain, sampleFormatter, defineTextMacro]
  refine ⟨hplain, fun h => ?_⟩
  have hpieces : ∀ piece ∈ [(TextPart.reference ['n']).piece], piece.Plain := by
    simpa using hplain.piece
  have hsame := h.unique (format_pieces sampleFormatter [] hpieces)
  have hraise : sampleFormatter.expand [] [(TextPart.reference ['n']).piece] = .error .outOfRange := by
    rw [expand_cons, expandPiece_piece hplain]
    have hvalue : TextPart.value sampleFormatter (.reference ['n']) = [] := by
      simp [TextPart.value, sampleFormatter, defineTextMacro, stringifyParameter]
    simp only [hvalue, unescape_nil]
    rfl
  rw [hraise] at hsame
  cases hsame

end InMemoryFuzzing.Utils.SimpleFormatter

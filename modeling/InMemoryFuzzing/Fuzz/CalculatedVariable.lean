import InMemoryFuzzing.Utils.StringHelper
import InMemoryFuzzing.Utils.Expansion

/-!
# `CalculatedSymbolTableVariable`

The expression of a data region refers to numbers in hexadecimal and to registers. The callback
cuts `reg|rbp` at a bar; the documentation of the data regions writes `reg:rbp`, where the
formatter ends the first part of its packet at the colon and never asks the callback
(`address_expression_iff`).
-/

namespace InMemoryFuzzing.Fuzz

open Base Platform DotNet Utils SimpleFormatter

/-- What the callback raises. -/
inductive VariableException
  | argument (message : String)
  | notSupported (message : String)
  /-- `UInt64.Parse`. -/
  | parse (e : NetException)
  deriving DecidableEq, Repr

/-- `VariableDetectedCB`; the connector is asked for the value of a register. -/
def variableDetectedCB (getRegisterValue : List Char → Option UInt64) (variable_ : List Char) :
    Except VariableException Parameter :=
  if equalsIgnoreCase (variable_.take 2) ['0', 'x'] then
    match parseHexNumber (variable_.drop 2) with
    | .error e => .error (.parse e)
    | .ok value => .ok (some (Nat.toDigits 10 value.toNat))
  else
    match splitToKeyValue variable_ '|' with
    | none => .error (.argument
        ("Check variable syntax, '" ++ String.ofList variable_ ++ "' is invalid"))
    | some (key, value) =>
        if key = ['r', 'e', 'g'] then
          match getRegisterValue value with
          | none => .error (.argument ("Register '" ++ String.ofList value ++ "' is not defined"))
          | some regVal => .ok (some (Nat.toDigits 10 regVal.toNat))
        else .error (.notSupported
          ("Check variable syntax, '" ++ String.ofList variable_ ++ "' is invalid or unknown"))

/-- The text that `Address` hands to the expression compiler. -/
def AddressText (getRegisterValue : List Char → Option UInt64) (expression : List Char)
    (outcome : Except (Raised VariableException) (List Char)) : Prop :=
  ReplacesVariables expression (variableDetectedCB getRegisterValue) outcome

/-! ## Expressions -/

/-- A part of an expression, as the documentation of the data regions has it. -/
inductive ExpressionPart
  | literal (text : List Char)
  | hex (digits : List Char)
  | register (name : List Char)
  deriving DecidableEq, Repr

namespace ExpressionPart

/-- `{[0x<digits>]}` and `{[reg:<name>]}`. -/
def piece : ExpressionPart → FormatPiece
  | .literal text => .literal text
  | .hex digits => .packet (macroPart ('0' :: 'x' :: digits))
  | .register name => .packet (macroPart ('r' :: 'e' :: 'g' :: ':' :: name))

/-- The part with the number in the place of the reference. -/
def value (getRegisterValue : List Char → Option UInt64) : ExpressionPart → List Char
  | .literal text => text
  | .hex digits => Nat.toDigits 10 ((parseDigits 16 digits).getD 0)
  | .register name => Nat.toDigits 10 ((getRegisterValue name).getD 0).toNat

/-- A literal without braces and backslashes, a number below 2^64, or a register whose value the
connector returns. -/
def Plain (getRegisterValue : List Char → Option UInt64) : ExpressionPart → Prop
  | .literal text => ∀ c ∈ text, c ∉ ['{', '}', '\\']
  | .hex digits => ∃ n, parseDigits 16 digits = some n ∧ n < 2 ^ 64
  | .register name => '}' ∉ name ∧ (getRegisterValue name).isSome = true

end ExpressionPart

/-! ## References -/

/-- A number in hexadecimal is printed in decimal. -/
theorem variableDetectedCB_hex {digits : List Char} {n : Nat}
    (hparse : parseDigits 16 digits = some n) (hn : n < 2 ^ 64) (getRegisterValue : List Char → Option UInt64) :
    variableDetectedCB getRegisterValue ('0' :: 'x' :: digits) =
      .ok (some (Nat.toDigits 10 n)) := by
  have hprefix : equalsIgnoreCase (('0' :: 'x' :: digits).take 2) ['0', 'x'] = true := by
    simp [equalsIgnoreCase]
  have htrim : trimWhite digits = digits :=
    trimWhite_of_none fun c hc => isWhite_of_digit (isSome_digitValue_of_parseDigits hparse c hc)
  have hvalue : (UInt64.ofNat n).toNat = n := by
    rw [UInt64.toNat_ofNat']
    exact Nat.mod_eq_of_lt hn
  have hnumber : parseHexNumber digits = .ok (UInt64.ofNat n) := by
    rw [parseHexNumber, htrim, hparse]
    show checkUInt64 (n : Int) = _
    rw [checkUInt64, if_pos (by omega), Int.toNat_natCast]
  have hdrop : ('0' :: 'x' :: digits).drop 2 = digits := rfl
  rw [variableDetectedCB, if_pos hprefix, hdrop]
  simp only [hnumber, hvalue]

/-- Decimal digits are inserted as they are. -/
theorem unescape_toDigits {ε : Type} (n : Nat) :
    (unescape (Nat.toDigits 10 n) : Except (Raised ε) _) = .ok (Nat.toDigits 10 n) := by
  rw [unescape_eq_self_iff]
  refine ⟨Nat.toDigits_ne_nil, ?_⟩
  intro i hi
  exact absurd (List.mem_of_getElem? hi) (not_mem_toDigits (by omega) (by omega) rfl)

section References

variable (getRegisterValue : List Char → Option UInt64)

/-- The formatter with the callback. -/
abbrev addressFormatter : SimpleFormatter VariableException :=
  variableFormatter (variableDetectedCB getRegisterValue)

theorem formatPacket_hex {digits : List Char} {n : Nat} (hparse : parseDigits 16 digits = some n)
    (hn : n < 2 ^ 64) :
    (addressFormatter getRegisterValue).formatPacket (macroPart ('0' :: 'x' :: digits)) [] =
      .ok (Nat.toDigits 10 n) := by
  have hcolon : ':' ∉ macroPart ('0' :: 'x' :: digits) := by
    intro hmem
    have hdigits : ':' ∈ digits := by simpa [macroPart] using hmem
    have hsome := isSome_digitValue_of_parseDigits hparse _ hdigits
    cases hsome
  have hlookup : (addressFormatter getRegisterValue).lookup (macroPart ('0' :: 'x' :: digits)) [] =
      .ok (some (stringifyParameter (some (Nat.toDigits 10 n)))) := by
    rw [lookup_macroPart]
    simp only [addressFormatter, variableFormatter, new, variableDetectedCB_hex hparse hn]
  rw [formatPacket_of_lookup (escapeSafeSplit_of_not_mem hcolon) hlookup, stringifyParameter,
    Option.getD_some, unescape_toDigits]
  rfl

/-- The first part of a reference to a register is no macro. -/
theorem formatPacket_register (name : List Char) :
    (addressFormatter getRegisterValue).formatPacket
        (macroPart ('r' :: 'e' :: 'g' :: ':' :: name)) [] =
      .error (.format "Unknown format '[reg'") := by
  have hfirst : ':' ∉ ['[', 'r', 'e', 'g'] := by simp
  have hlast : ['[', 'r', 'e', 'g'].getLast? ≠ some '\\' := by simp
  obtain ⟨others, hsplit⟩ :
      ∃ others, escapeSafeSplit (macroPart ('r' :: 'e' :: 'g' :: ':' :: name)) ':' =
        (.ok (['[', 'r', 'e', 'g'] :: others) : Except (Raised VariableException) _) :=
    escapeSafeSplit_append hfirst hlast (name ++ [']'])
  have hlookup : (addressFormatter getRegisterValue).lookup ['[', 'r', 'e', 'g'] [] =
      .error (.format "Unknown format '[reg'") := rfl
  exact formatPacket_raises hsplit hlookup

end References

namespace ExpressionPart

variable {getRegisterValue : List Char → Option UInt64} {part : ExpressionPart}

theorem Plain.piece (h : part.Plain getRegisterValue) : part.piece.Plain := by
  have hend : ∀ name, (macroPart name).getLast? ≠ some '\\' := by
    intro name
    rw [macroPart, ← List.cons_append, List.getLast?_append]
    simp
  cases part with
  | literal text => exact ⟨fun hmem => h _ hmem (by simp), fun hmem => h _ hmem (by simp)⟩
  | hex digits =>
      obtain ⟨n, hparse, -⟩ := h
      refine ⟨?_, hend _⟩
      intro hmem
      have hdigits : '}' ∈ digits := by simpa [macroPart] using hmem
      have hsome := isSome_digitValue_of_parseDigits hparse _ hdigits
      cases hsome
  | register name =>
      refine ⟨?_, hend _⟩
      intro hmem
      have hname : '}' ∈ name := by simpa [macroPart] using hmem
      exact h.1 hname

/-- What the formatter makes of a part. -/
def expanded (getRegisterValue : List Char → Option UInt64) :
    ExpressionPart → Except (Raised VariableException) (List Char)
  | .register _ => .error (.format "Unknown format '[reg'")
  | part => .ok (part.value getRegisterValue)

theorem Plain.expandPiece (h : part.Plain getRegisterValue) :
    (addressFormatter getRegisterValue).expandPiece [] part.piece =
      part.expanded getRegisterValue := by
  cases part with
  | literal text => rfl
  | hex digits =>
      obtain ⟨n, hparse, hn⟩ := h
      rw [ExpressionPart.piece, SimpleFormatter.expandPiece,
        formatPacket_hex getRegisterValue hparse hn]
      simp only [expanded, value, hparse, Option.getD_some]
      rfl
  | register name =>
      rw [ExpressionPart.piece, SimpleFormatter.expandPiece, formatPacket_register]
      rfl

end ExpressionPart

/-- Every reference is replaced by the digits of its value, and nothing is raised, if and only if
there is no reference to a register. -/
theorem address_expression_iff (getRegisterValue : List Char → Option UInt64)
    {parts : List ExpressionPart} (hparts : ∀ part ∈ parts, part.Plain getRegisterValue) :
    AddressText getRegisterValue (textOf (parts.map ExpressionPart.piece))
        (.ok (parts.flatMap (ExpressionPart.value getRegisterValue))) ↔
      ∀ name, ExpressionPart.register name ∉ parts := by
  have hshort : ∀ part ∈ parts, ∀ result,
      (addressFormatter getRegisterValue).expandPiece [] part.piece = .ok result →
        result.length ≤ (part.value getRegisterValue).length := by
    intro part hpart result h
    rw [(hparts part hpart).expandPiece] at h
    cases part with
    | literal text =>
        cases h
        exact Nat.le_refl _
    | hex digits =>
        cases h
        exact Nat.le_refl _
    | register name => cases h
  have hexpected : AddressText getRegisterValue (textOf (parts.map ExpressionPart.piece))
      (.ok (parts.flatMap (ExpressionPart.value getRegisterValue))) ↔ _ :=
    formats_expected_iff (addressFormatter getRegisterValue) []
      (fun part hpart => (hparts part hpart).piece) hshort
  rw [hexpected]
  constructor
  · intro h name hname
    have hpart := h _ hname
    rw [(hparts _ hname).expandPiece] at hpart
    cases hpart
  · intro h part hpart
    rw [(hparts part hpart).expandPiece]
    cases part with
    | literal text => rfl
    | hex digits => rfl
    | register name => exact absurd hpart (h name)

/-- `{[0xff]}+8`. -/
theorem sample_address_expression :
    AddressText (fun _ => none) ['{', '[', '0', 'x', 'f', 'f', ']', '}', '+', '8']
      (.ok ['2', '5', '5', '+', '8']) := by
  have hparts : ∀ part ∈ [ExpressionPart.hex ['f', 'f'], .literal ['+', '8']],
      part.Plain fun _ => none := by
    intro part hpart
    rcases List.mem_pair.mp hpart with rfl | rfl
    · exact ⟨255, rfl, by norm_num⟩
    · simp [ExpressionPart.Plain]
  exact (address_expression_iff (fun _ => none) hparts).mpr (by simp)

/-- `{[reg:rbp]}+24`, as it is documented. -/
def registerExpression : List ExpressionPart := [.register ['r', 'b', 'p'], .literal ['+', '2', '4']]

/-- It is not expanded to the value of the register, here 4096. -/
theorem register_reference_raises :
    (∀ part ∈ registerExpression, part.Plain fun _ => some 4096) ∧
    ¬AddressText (fun _ => some 4096) (textOf (registerExpression.map ExpressionPart.piece))
      (.ok (registerExpression.flatMap (ExpressionPart.value fun _ => some 4096))) := by
  have hparts : ∀ part ∈ registerExpression, part.Plain fun _ => some 4096 := by
    simp [registerExpression, ExpressionPart.Plain]
  refine ⟨hparts, fun h => ?_⟩
  have hpieces : ∀ piece ∈ registerExpression.map ExpressionPart.piece, piece.Plain := by
    intro piece hpiece
    obtain ⟨part, hpart, rfl⟩ := List.mem_map.mp hpiece
    exact (hparts part hpart).piece
  have hsame := h.unique (format_pieces (addressFormatter fun _ => some 4096) [] hpieces)
  rw [registerExpression, List.map_cons, expand_cons,
    (hparts _ List.mem_cons_self).expandPiece] at hsame
  cases hsame

end InMemoryFuzzing.Fuzz

import InMemoryFuzzing.Utils.SimpleFormatter

/-!
# `StringHelper`

`StringToUInt64`: numbers of a configuration file, in hexadecimal behind `0x` and otherwise with
`NumberStyles.Number`: a sign in front or behind, group separators, and zeros behind a decimal
point.

`ReplaceVariables` leaves the references in an expression to `SimpleFormatter`.
-/

namespace InMemoryFuzzing.Utils

open Base Platform DotNet

/-- `String.Equals` with `InvariantCultureIgnoreCase`. -/
def equalsIgnoreCase (s t : List Char) : Bool := toLower s = toLower t

/-- A number as a `UInt64`. -/
def checkUInt64 (v : Int) : Except NetException UInt64 :=
  if 0 ≤ v ∧ v < 2 ^ 64 then .ok (UInt64.ofNat v.toNat) else .error .overflow

/-- The sign of a number and the text without it; a sign stands in front or behind. -/
def cutSign (text : List Char) : Bool × List Char :=
  match text, text.getLast? with
  | '-' :: rest, _ => (true, rest)
  | '+' :: rest, _ => (false, rest)
  | _, some '-' => (true, text.dropLast)
  | _, some '+' => (false, text.dropLast)
  | _, _ => (false, text)

/-- Digits with group separators between them. -/
def parseGroups : List Char → Option Nat
  | ',' :: _ => none
  | text => parseDigits 10 (text.filter fun c => c ≠ ',')

/-- `UInt64.Parse` with `NumberStyles.Number`. -/
def parseNumber (text : List Char) : Except NetException UInt64 :=
  let (negative, digits) := cutSign (trimWhite text)
  let (whole, fraction) := (cutAt '.' digits).getD (digits, [])
  match parseGroups whole with
  | none => .error .format
  | some n =>
      if fraction.all fun c => c = '0' then checkUInt64 (if negative then -(n : Int) else n)
      else if fraction.all Char.isDigit then .error .overflow
      else .error .format

/-- `UInt64.Parse` with `NumberStyles.HexNumber`. -/
def parseHexNumber (text : List Char) : Except NetException UInt64 :=
  match parseDigits 16 (trimWhite text) with
  | none => .error .format
  | some n => checkUInt64 n

/-- `StringToUInt64`. -/
def stringToUInt64 (val : List Char) : Except NetException UInt64 :=
  if equalsIgnoreCase (val.take 2) ['0', 'x'] then parseHexNumber (val.drop 2) else parseNumber val

/-- A number in hexadecimal, as it stands in a configuration file. -/
def hexText (value : UInt64) : List Char := '0' :: 'x' :: Nat.toDigits 16 value.toNat

theorem checkUInt64_toNat (value : UInt64) : checkUInt64 value.toNat = .ok value := by
  have hlt : value.toNat < 2 ^ 64 := value.toNat_lt
  rw [checkUInt64, if_pos (by omega), Int.toNat_natCast, UInt64.ofNat_toNat]

theorem stringToUInt64_hexText (value : UInt64) : stringToUInt64 (hexText value) = .ok value := by
  have hprefix : equalsIgnoreCase ((hexText value).take 2) ['0', 'x'] = true := by
    simp [hexText, equalsIgnoreCase]
  rw [stringToUInt64, if_pos hprefix]
  show parseHexNumber (Nat.toDigits 16 value.toNat) = _
  rw [parseHexNumber,
    trimWhite_of_none fun c => not_isWhite_of_mem_toDigits (by omega) (by omega),
    parseDigits_toDigits (by omega) (by omega)]
  exact checkUInt64_toNat value

example : stringToUInt64 "1,024 ".toList = .ok 1024 := by rfl

/-! ## Variables -/

/-- `SplitToKeyValue` with a delimiter of one character; there are no empty entries. -/
def splitToKeyValue (s : List Char) (delimiter : Char) : Option (List Char × List Char) :=
  match cutAt delimiter (s.dropWhile fun c => c == delimiter) with
  | none => none
  | some (key, rest) =>
      let value := rest.dropWhile fun c => c == delimiter
      if value.isEmpty then none else some (key, value)

/-- The formatter of `ReplaceVariables`. -/
def variableFormatter {ε : Type} (cb : List Char → Except ε Parameter) : SimpleFormatter ε :=
  { (SimpleFormatter.new : SimpleFormatter ε) with onGetParameter := some cb }

/-- What `ReplaceVariables` returns or raises. -/
def ReplacesVariables {ε : Type} (expression : List Char) (cb : List Char → Except ε Parameter)
    (outcome : Except (Raised ε) (List Char)) : Prop :=
  (variableFormatter cb).Formats expression [] outcome

end InMemoryFuzzing.Utils

import InMemoryFuzzing.Base.Loop
import InMemoryFuzzing.Platform.DotNet

/-!
# `SimpleFormatter`

A text is expanded from the left: what is in front of a brace is copied, and the packet between
the brace and the next closing one is replaced. A brace, a colon or a backslash with a backslash in
front of it is skipped by the search for it, which looks back one character.

`Format` keeps its offset in a variable that `GetFormatPacket` is handed by reference. Where there
is no closing brace the offset is set to 0 in front of the exception (`getFormatPacket`), and an
exception that is not thrown on leaves it there.
-/

namespace InMemoryFuzzing.Utils

open Base Platform DotNet

/-- What leaves the formatter: a `FormatException`, what `IndexOf` and `Substring` raise, and what
`OnGetParameter` raises. -/
inductive Raised (ε : Type)
  | format (message : String)
  | outOfRange
  | parameter (e : ε)
  deriving DecidableEq, Repr

/-- A reference to an object: the text of its `ToString`, or null. -/
abbrev Parameter := Option (List Char)

structure SimpleFormatter (ε : Type) where
  onGetParameter : Option (List Char → Except ε Parameter)
  textMacros : List Char → Option Parameter
  throwException : Bool
  ignoreUnknownMacros : Bool

namespace SimpleFormatter

variable {ε : Type}

/-- The constructor, with the initial values of the fields. -/
def new : SimpleFormatter ε := ⟨none, fun _ => none, true, false⟩

/-- `DefineTextMacro`. -/
def defineTextMacro (f : SimpleFormatter ε) (name : List Char) (value : Parameter) :
    SimpleFormatter ε :=
  { f with textMacros := fun n => if n = name then some value else f.textMacros n }

/-! ## Searching -/

/-- `IndexOf` from an offset on. -/
def indexOf (findIn : List Char) (toFind : Char) (offset : Nat) : Except (Raised ε) (Option Nat) :=
  if findIn.length < offset then .error .outOfRange
  else .ok (((findIn.drop offset).findIdx? fun c => c == toFind).map fun i => offset + i)

theorem indexOf_bounds {findIn : List Char} {toFind : Char} {offset index : Nat}
    (h : (indexOf findIn toFind offset : Except (Raised ε) _) = .ok (some index)) :
    offset ≤ index ∧ index < findIn.length := by
  rw [indexOf] at h
  split at h
  · cases h
  · obtain ⟨i, hfound, rfl⟩ := Option.map_eq_some_iff.mp (Except.ok.inj h)
    have hlt := (List.findIdx?_eq_some_iff_getElem.mp hfound).1
    rw [List.length_drop] at hlt
    omega

/-- `FindNextNotEscaped`; where it returns -1 there is no such character. -/
def findNextNotEscaped (offset : Nat) (findIn : List Char) (toFind : Char) :
    Except (Raised ε) (Option Nat) :=
  match h : (indexOf findIn toFind offset : Except (Raised ε) _) with
  | .error e => .error e
  | .ok none => .ok none
  | .ok (some index) =>
      if index = 0 then .ok (some index)
      else if findIn[index - 1]? ≠ some '\\' then .ok (some index)
      else findNextNotEscaped (index + 1) findIn toFind
termination_by findIn.length + 1 - offset
decreasing_by
  have hbounds := indexOf_bounds h
  omega

theorem findNextNotEscaped_bounds {offset : Nat} {findIn : List Char} {toFind : Char} {index : Nat}
    (h : (findNextNotEscaped offset findIn toFind : Except (Raised ε) _) = .ok (some index)) :
    offset ≤ index ∧ index < findIn.length := by
  fun_induction findNextNotEscaped (ε := ε) offset findIn toFind with
  | case1 => cases h
  | case2 => cases h
  | case3 offset hindex =>
      cases h
      exact indexOf_bounds hindex
  | case4 offset found hindex hpos hprevious =>
      cases h
      exact indexOf_bounds hindex
  | case5 offset found hindex hpos hprevious ih =>
      have hbounds := indexOf_bounds hindex
      have hnext := ih h
      omega

/-- `Substring`. -/
def substring (s : List Char) (start length : Int) : Except (Raised ε) (List Char) :=
  if start < 0 ∨ length < 0 ∨ (s.length : Int) < start + length then .error .outOfRange
  else .ok ((s.drop start.toNat).take length.toNat)

/-- `GetFormatPacket` behind a start marker: the offset it leaves, and the packet. -/
def getFormatPacket (offset : Nat) (str : List Char) : Nat × Except (Raised ε) (List Char) :=
  match (findNextNotEscaped offset str '}' : Except (Raised ε) _) with
  | .error e => (offset, .error e)
  -- -1 + 1
  | .ok none => (0, .error (.format "Cannot find end Marker '\x7d'"))
  | .ok (some index) => (index + 1, substring str offset ((index : Int) + 1 - offset - 1))

/-! ## Escapes -/

/-- The loop of `EscapeSafeSplit` from an offset on. -/
def escapeSafeSplitFrom (offset : Nat) (toEscape : List Char) (splitBy : Char) :
    Except (Raised ε) (List (List Char)) :=
  match h : (findNextNotEscaped offset toEscape splitBy : Except (Raised ε) _) with
  | .error e => .error e
  | .ok none => do
      let last ← substring toEscape offset (toEscape.length - offset)
      .ok [last]
  | .ok (some index) => do
      let part ← substring toEscape offset (index - offset)
      let rest ← escapeSafeSplitFrom (index + 1) toEscape splitBy
      .ok (part :: rest)
termination_by toEscape.length + 1 - offset
decreasing_by
  have hbounds := findNextNotEscaped_bounds h
  omega

/-- `EscapeSafeSplit`. -/
def escapeSafeSplit (toEscape : List Char) (splitBy : Char) :
    Except (Raised ε) (List (List Char)) :=
  escapeSafeSplitFrom 0 toEscape splitBy

/-- The loop of `Unescape` from an index on. -/
def unescapeFrom (lastIndex : Nat) (escaped : List Char) : Except (Raised ε) (List Char) :=
  match _ : (findNextNotEscaped (lastIndex + 1) escaped '\\' : Except (Raised ε) _) with
  | .error e => .error e
  | .ok none => substring escaped lastIndex (escaped.length - lastIndex)
  | .ok (some index) => do
      let part ← substring escaped lastIndex (index - lastIndex)
      let rest ← unescapeFrom (index + 1) escaped
      .ok (part ++ rest)
termination_by escaped.length + 1 - lastIndex
decreasing_by
  rename_i hfound
  have hbounds := findNextNotEscaped_bounds hfound
  omega

/-- `Unescape`. -/
def unescape (escaped : List Char) : Except (Raised ε) (List Char) := unescapeFrom 0 escaped

/-! ## Alignment -/

/-- `FormatLN`. -/
def formatLN (length : Int) (val : List Char) : Except (Raised ε) (List Char) :=
  if length = -1 then .ok val
  else if length < val.length then substring val 0 length
  else .ok val

/-- `FormatLF`. -/
def formatLF (length : Int) (val : List Char) (fillChar : Char) : Except (Raised ε) (List Char) :=
  if length = -1 then .ok val
  else if length < val.length then substring val 0 length
  else .ok (val ++ List.replicate (length - val.length).toNat fillChar)

/-- The conversion of a count to `float`, rounded to 24 bits, half to even. -/
def castSingle (n : Nat) : Nat :=
  let unit := 2 ^ (n.log2 + 1 - 24)
  let below := n / unit
  if 2 * (n % unit) < unit ∨ (2 * (n % unit) = unit ∧ below % 2 = 0) then below * unit
  else (below + 1) * unit

/-- `FormatM`; the halves of a difference of `float` numbers are rounded down and up. -/
def formatM (length : Int) (val : List Char) (fillChar : Char) : Except (Raised ε) (List Char) :=
  if length = -1 then .ok val
  else if length < val.length then substring val (((val.length : Int) - length) / 2) length
  else
    let difference := castSingle (castSingle length.toNat - castSingle val.length)
    .ok (List.replicate (difference / 2) fillChar ++ val ++
      List.replicate ((difference + 1) / 2) fillChar)

/-- `FormatR`. -/
def formatR (length : Int) (val : List Char) (fillChar : Char) : Except (Raised ε) (List Char) :=
  if length = -1 then .ok val
  else if length < val.length then
    let start := (val.length : Int) - length
    substring val start (val.length - start)
  else .ok (List.replicate (length - val.length).toNat fillChar ++ val)

/-- The end of `FormatPacket`: the parts behind the first one. -/
def align (splitted : List (List Char)) (formatted : List Char) : Except (Raised ε) (List Char) :=
  match splitted with
  | _ :: alignment :: options =>
      -- `int.TryParse` leaves 0 where it fails
      let size := match options with
        | [] => -1
        | width :: _ => (intTryParse width).getD 0
      let fillChar := (options.getD 1 []).headD ' '
      let alignment := toLower alignment
      if alignment = ['l', 'n'] ∨ alignment = ['l'] then formatLN size formatted
      else if alignment = ['l', 'f'] then formatLF size formatted fillChar
      else if alignment = ['m'] then formatM size formatted fillChar
      else if alignment = ['r'] then formatR size formatted fillChar
      else .ok formatted
  | _ => .ok formatted

/-! ## Packets -/

/-- `StringifyParameter`. -/
def stringifyParameter (arg : Parameter) : List Char := arg.getD []

/-- The text a packet stands for, by its first part; none where the packet is returned as it
stands. -/
def lookup (f : SimpleFormatter ε) (first : List Char) (args : List Parameter) :
    Except (Raised ε) (Option (List Char)) :=
  match intTryParse first with
  | some index =>
      if index < 0 ∨ args.length ≤ index then
        .error (.format ("Argument \x7b" ++ toString index ++ "\x7d not found!"))
      else .ok (some (stringifyParameter (args.getD index.toNat none)))
  | none =>
      if ['['] <+: first ∧ [']'] <:+ first then do
        let macroName ← substring first 1 ((first.length : Int) - 2)
        match f.textMacros macroName with
        | some value => .ok (some (stringifyParameter value))
        | none =>
            match f.onGetParameter with
            | some getParameter =>
                match getParameter macroName with
                | .error e => .error (.parameter e)
                | .ok value => .ok (some (stringifyParameter value))
            | none =>
                if f.ignoreUnknownMacros then .ok none
                else .error (.format ("Macro '" ++ String.ofList macroName ++ "' not defined"))
      else if ['"'] <+: first ∧ ['"'] <:+ first then do
        let text ← substring first 1 ((first.length : Int) - 2)
        .ok (some text)
      else .error (.format ("Unknown format '" ++ String.ofList first ++ "'"))

/-- `FormatPacket`. -/
def formatPacket (f : SimpleFormatter ε) (format : List Char) (args : List Parameter) :
    Except (Raised ε) (List Char) := do
  let splitted ← escapeSafeSplit format ':'
  let found ← match splitted with
    | [] => .ok (some [])
    | first :: _ => f.lookup first args
  match found with
  | none => .ok ('{' :: format ++ ['}'])
  | some formatted => do
      let formatted ← unescape formatted
      align splitted formatted

/-! ## `Format` -/

/-- The variables of the loop; it ends where the offset is null. -/
structure FormatState where
  offset : Option Nat
  formatted : List Char
  deriving DecidableEq, Repr

/-- The `try` block: the variables behind it, and the exception that has left it. -/
def formatPart (f : SimpleFormatter ε) (format : List Char) (args : List Parameter)
    (lastOffset : Nat) (formatted : List Char) : Option Nat → FormatState × Option (Raised ε)
  | some index =>
      match (substring format lastOffset ((index : Int) - lastOffset) : Except (Raised ε) _) with
      | .error e => (⟨some index, formatted⟩, some e)
      | .ok literal =>
          let (offset, packet) := getFormatPacket (index + 1) format
          match packet >>= fun currentFormatPacket => f.formatPacket currentFormatPacket args with
          | .error e => (⟨some offset, formatted ++ literal⟩, some e)
          | .ok text => (⟨some offset, formatted ++ literal ++ text⟩, none)
  | none =>
      match (substring format lastOffset ((format.length : Int) - lastOffset) :
          Except (Raised ε) _) with
      | .error e => (⟨none, formatted⟩, some e)
      | .ok literal => (⟨none, formatted ++ literal⟩, none)

/-- The body of the loop. -/
def formatRound (f : SimpleFormatter ε) (format : List Char) (args : List Parameter)
    (s : FormatState) : Except (Raised ε) (FormatState ⊕ List Char) :=
  match s.offset with
  | none => .ok (.inr s.formatted)
  | some lastOffset => do
      -- `FindStartMarker`, in front of the `try` block
      let found ← findNextNotEscaped lastOffset format '{'
      match f.formatPart format args lastOffset s.formatted found with
      | (next, some e) => if f.throwException then .error e else .ok (.inl next)
      | (next, none) => .ok (.inl next)

/-- The variables in front of the loop. -/
def formatStart : FormatState := ⟨some 0, []⟩

/-- `Format` returns a text or raises. -/
def Formats (f : SimpleFormatter ε) (format : List Char) (args : List Parameter)
    (outcome : Except (Raised ε) (List Char)) : Prop :=
  EndsWith (f.formatRound format args) formatStart outcome

/-- `Format`, where the exceptions are thrown on: every round comes nearer to the end. -/
def formatText (f : SimpleFormatter ε) (format : List Char) (args : List Parameter) :
    Except (Raised ε) (List Char) :=
  (runLoop (f.formatRound format args) (format.length + 3) formatStart).getD (.error .outOfRange)

/-- `Format` terminates. -/
def Terminates (f : SimpleFormatter ε) (format : List Char) (args : List Parameter) : Prop :=
  Ends (f.formatRound format args) formatStart

end SimpleFormatter

end InMemoryFuzzing.Utils

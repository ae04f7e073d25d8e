import InMemoryFuzzing.Gdb.RegexLogic
import InMemoryFuzzing.Gdb.Theorems.Answers
import InMemoryFuzzing.Utils.StringHelper

/-!
# Memory dumps are read back

gdb prints an address, perhaps a symbol, a colon and the bytes; a dump may end in a message. Behind
the colon there is no other one, so the values begin where gdb's begin, whatever the symbol is
(`search_values`), and the message is only met where a line has nothing else (`not_message`).
-/

namespace InMemoryFuzzing.Gdb

open Base Platform DotNet Utils Regex

/-! ## What gdb prints -/

/-- A byte, as two hexadecimal digits in either case. -/
structure DumpValue where
  byte : UInt8
  digits : List Char
  two : digits.length = 2
  reads : parseDigits 16 digits = some byte.toNat

/-- `0x<digits>`. -/
def DumpValue.text (v : DumpValue) : List Char := '0' :: 'x' :: v.digits

def message : String := "Cannot access memory at address"

/-- The end of `rError`, from the colon on. -/
def rMessage (chars : CharData) : Pattern Char :=
  Regex.text chars ":" ++ [spaces] ++ Regex.text chars message ++ [anything false]

/-- The text of a symbol, which is not one of the message behind a colon. -/
structure SymbolText (chars : CharData) where
  name : List Char
  clean : ¬(rMessage chars).Occurs (" <".toList ++ name ++ ['>'])

/-- A line of a dump. -/
structure DumpLine (chars : CharData) where
  address : UInt64
  symbol : Option (SymbolText chars)
  values : List DumpValue

namespace DumpLine

variable {chars : CharData}

/-- ` <symbol+offset>`. -/
def symbolText (l : DumpLine chars) : List Char :=
  match l.symbol with
  | some symbol => " <".toList ++ symbol.name ++ ['>']
  | none => []

/-- What is in front of the colon. -/
def place (l : DumpLine chars) : List Char := hexText l.address ++ l.symbolText

/-- `0x<address> <symbol+offset>:` and the values with a tab in front of each. -/
def text (l : DumpLine chars) : List Char :=
  l.place ++ ':' :: l.values.flatMap fun v => '\t' :: v.text

def bytes (l : DumpLine chars) : List UInt8 := l.values.map DumpValue.byte

theorem place_append (l : DumpLine chars) (rest : List Char) : l.place ++ rest =
    '0' :: 'x' :: (Nat.toDigits 16 l.address.toNat ++ l.symbolText ++ rest) := by
  simp [place, hexText]

end DumpLine

/-- `Cannot access memory at address 0x<address>`. -/
def messageText (address : UInt64) : List Char := message.toList ++ ' ' :: hexText address

/-- A line that is cut off: the message stands behind a tab, or is all there is behind the colon and
white space. -/
structure CutLine (chars : CharData) where
  line : DumpLine chars
  gap : List Char
  address : UInt64
  white : ∀ c ∈ gap, isWhiteSpace c = true
  tab : line.values ≠ [] → gap = ['\t']

def CutLine.text {chars : CharData} (c : CutLine chars) : List Char :=
  c.line.text ++ (c.gap ++ messageText c.address)

/-- A dump. -/
structure Dump (chars : CharData) where
  lines : List (DumpLine chars)
  last : Option (CutLine chars)

namespace Dump

variable {chars : CharData}

/-- The lines as the handler gets them. -/
def text (d : Dump chars) : List (List Char) :=
  d.lines.map DumpLine.text ++ (d.last.map CutLine.text).toList

/-- The bytes that are printed. -/
def bytes (d : Dump chars) : List UInt8 :=
  d.lines.flatMap DumpLine.bytes ++ (d.last.map fun c => c.line.bytes).getD []

end Dump

/-- The buffer behind a read of some bytes, and how many have found room in it. -/
def readInto (buffer bytes : List UInt8) : List UInt8 × Nat :=
  (bytes.take buffer.length ++ buffer.drop bytes.length, min bytes.length buffer.length)

/-! ## Where the message is met -/

variable {chars : CharData}

/-- The message, in front of anything. -/
theorem accepts_message {line : List Char}
    (h : Pattern.Accepts (Regex.text chars message ++ [anything false]) line) :
    ∃ front back, line = front ++ back ∧
      List.Forall₂ (fun c d => chars.toLower d = chars.toLower c) message.toList front := by
  obtain ⟨front, back, hline, hsame, -⟩ := accepts_text h
  exact ⟨front, back, hline, hsame⟩

/-- The message begins with a letter, so neither with a tab nor with a number. -/
theorem message_head (hchars : chars.LettersOnly) {line : List Char}
    (h : Pattern.Accepts (Regex.text chars message ++ [anything false]) line) :
    ∃ c rest, line = c :: rest ∧ c ≠ '\t' ∧ c ≠ '0' := by
  obtain ⟨front, back, rfl, hsame⟩ := accepts_message h
  cases hsame with
  | @cons _ c _ rest hfirst _ =>
      have hletter : ∀ d : Char, d.toNat < 128 → d.isAlpha = false → c = d → 'C' = d := by
        rintro d hascii hother rfl
        exact hchars 'C' c hascii hother hfirst.symm
      refine ⟨c, rest ++ back, rfl, ?_, ?_⟩
      · intro htab
        cases hletter '\t' (by decide) rfl htab
      · intro hzero
        cases hletter '0' (by decide) rfl hzero

/-- The message that is accepted in front of something with a colon ends in front of the colon. -/
theorem accepts_message_left (hchars : chars.LettersOnly) {front back : List Char}
    (h : Pattern.Accepts (Regex.text chars message ++ [anything false]) (front ++ ':' :: back)) :
    Pattern.Accepts (Regex.text chars message ++ [anything false]) front :=
  accepts_text_left hchars (by decide) (by decide) (by decide) h

/-- What the end of the pattern accepts. -/
theorem accepts_rMessage_iff (hchars : chars.LettersOnly) {line : List Char} :
    (rMessage chars).Accepts line ↔ ∃ white rest, line = ':' :: (white ++ rest) ∧
      (∀ c ∈ white, isWhiteSpace c = true) ∧
        Pattern.Accepts (Regex.text chars message ++ [anything false]) rest := by
  rw [rMessage, List.append_assoc, List.append_assoc]
  have htext : ":".toList = [':'] := rfl
  constructor
  · intro h
    obtain ⟨front, back, rfl, hsame, hspaces⟩ := accepts_text h
    rw [htext] at hsame
    cases eq_of_same hchars (by decide) (by decide) hsame
    cases hspaces with
    | @star _ _ _ white rest hwhite hrest => exact ⟨white, rest, rfl, hwhite, hrest⟩
  · rintro ⟨white, rest, rfl, hwhite, hrest⟩
    have hsame : List.Forall₂ (fun c d => chars.toLower d = chars.toLower c) ":".toList [':'] := by
      rw [htext]
      exact .cons rfl .nil
    exact accepts_of_same hsame (.star hwhite hrest)

/-- Where a colon is followed by no other one, the message is behind it, or in front of it as a
whole. -/
theorem occurs_message (hchars : chars.LettersOnly) {front back : List Char} (hback : ':' ∉ back)
    (h : (rMessage chars).Occurs (front ++ ':' :: back)) :
    (rMessage chars).Occurs front ∨ ∃ white rest, back = white ++ rest ∧
      (∀ c ∈ white, isWhiteSpace c = true) ∧
        Pattern.Accepts (Regex.text chars message ++ [anything false]) rest := by
  obtain ⟨before, behind, hline, haccepts⟩ := h
  obtain ⟨white, rest, rfl, hwhite, hrest⟩ := (accepts_rMessage_iff hchars).mp haccepts
  rcases List.append_eq_append_iff.mp hline with ⟨more, -, hmore⟩ | ⟨more, rfl, hmore⟩
  · cases more with
    | nil => exact .inr ⟨white, rest, (List.cons_eq_cons.mp hmore).2, hwhite, hrest⟩
    | cons c more =>
        have hmem : ':' ∈ back := by
          rw [(List.cons_eq_cons.mp hmore).2]
          exact List.mem_append_right more List.mem_cons_self
        exact absurd hmem hback
  · cases more with
    | nil => exact .inr ⟨white, rest, (List.cons_eq_cons.mp hmore).2.symm, hwhite, hrest⟩
    | cons c more =>
        left
        obtain ⟨rfl, htail⟩ := List.cons_eq_cons.mp hmore
        -- the white space behind that colon ends in front of the other one
        rcases List.append_eq_append_iff.mp htail with ⟨inner, rfl, hinner⟩ | ⟨inner, rfl, hinner⟩
        · refine ⟨before, _, rfl, (accepts_rMessage_iff hchars).mpr ⟨white, inner, rfl, hwhite, ?_⟩⟩
          rw [hinner] at hrest
          exact accepts_message_left hchars hrest
        · refine ⟨before, _, rfl, (accepts_rMessage_iff hchars).mpr ⟨more, [], by simp, ?_, ?_⟩⟩
          · exact fun d hd => hwhite d (List.mem_append_left _ hd)
          · cases inner with
            | nil =>
                rw [List.nil_append] at hinner
                rw [← hinner] at hrest
                rw [← List.nil_append (':' :: back)] at hrest
                exact accepts_message_left hchars hrest
            | cons d inner =>
                obtain ⟨rfl, -⟩ := List.cons_eq_cons.mp hinner
                exact absurd (hwhite ':' (List.mem_append_right _ List.mem_cons_self)) (by decide)

theorem rError_eq (chars : CharData) : ReadMemoryRH.rError chars =
    Regex.text chars "0x" ++ ([anything false] ++ rMessage chars) := by
  simp [ReadMemoryRH.rError, rMessage, message]

/-- Where the pattern for the message is found, its end is found. -/
theorem rMessage_of_rError {line : List Char} (h : (ReadMemoryRH.rError chars).Occurs line) :
    (rMessage chars).Occurs line := by
  obtain ⟨before, behind, rfl, haccepts⟩ := h
  rw [rError_eq] at haccepts
  obtain ⟨front, back, rfl, -, hback⟩ := accepts_text haccepts
  cases hback with
  | @star _ _ _ more rest _ hrest =>
      exact ⟨before ++ (front ++ more), rest, by simp, hrest⟩

/-! ## Where the values begin -/

theorem matchFront_colon (chars : CharData) (back : List Char) :
    Pattern.matchFront (Regex.text chars ":" ++ [spaces, anything true]) (':' :: back) =
      some [back.dropWhile isWhiteSpace] := by
  have htext : ':' :: back = ":".toList ++ back := rfl
  rw [htext, matchFront_text]
  exact Pattern.matchFront_star_rest isWhiteSpace back

/-- The values begin behind the last colon. -/
theorem search_values (hchars : chars.LettersOnly) {front back : List Char} (hback : ':' ∉ back) :
    (ReadMemoryRH.rSuccess chars).search ('0' :: 'x' :: (front ++ ':' :: back)) =
      some [back.dropWhile isWhiteSpace] := by
  have hnone : Pattern.greedy (fun _ => true)
      (Pattern.matchFront (Regex.text chars ":" ++ [spaces, anything true])) back = none := by
    rw [← Option.not_isSome_iff_eq_none, Pattern.greedy_isSome]
    rintro ⟨taken, rest, rfl, -, hsome⟩
    obtain ⟨colon, others, rfl, hsame, -⟩ :=
      accepts_text ((Pattern.matchFront_isSome _ _).mp hsome)
    have htext : ":".toList = [':'] := rfl
    rw [htext] at hsame
    cases eq_of_same hchars (by decide) (by decide) hsame
    exact hback (by simp)
  have hgreedy : Pattern.greedy (fun _ => true) _ (front ++ ':' :: back) =
      some (front, [back.dropWhile isWhiteSpace]) :=
    Pattern.greedy_run (fun _ _ => rfl) (matchFront_colon chars back) hnone
  have htext : '0' :: 'x' :: (front ++ ':' :: back) = "0x".toList ++ (front ++ ':' :: back) := rfl
  apply Pattern.search_of_matchFront
  rw [ReadMemoryRH.rSuccess, List.append_assoc, List.append_assoc, htext, matchFront_text]
  exact congrArg (Option.map (Pattern.group false)) hgreedy

/-! ## The values of a line -/

/-- What stands between two tabs: no white space is trimmed from it, and it is in one piece. -/
structure Column (column : List Char) : Prop where
  front : ∃ c rest, column = c :: rest ∧ isWhiteSpace c = false
  back : ∃ rest c, column = rest ++ [c] ∧ isWhiteSpace c = false
  tab : '\t' ∉ column
  colon : ':' ∉ column

/-- `0x` and digits are a column. -/
theorem column_of_digits {digits : List Char} (hne : digits ≠ [])
    (h : ∀ c ∈ digits, (digitValue c).isSome = true) : Column ('0' :: 'x' :: digits) := by
  obtain ⟨rest, c, rfl⟩ : ∃ rest c, digits = rest ++ [c] :=
    ⟨_, _, (List.dropLast_append_getLast hne).symm⟩
  have hnot : ∀ d, d ≠ '0' → d ≠ 'x' → (digitValue d).isSome = false →
      d ∉ '0' :: 'x' :: (rest ++ [c]) := by
    intro d hzero hx hdigit hmem
    rw [List.mem_cons, List.mem_cons, or_iff_right hzero, or_iff_right hx] at hmem
    rw [h d hmem] at hdigit
    cases hdigit
  refine ⟨⟨'0', _, rfl, by decide⟩, ⟨'0' :: 'x' :: rest, c, rfl, ?_⟩, ?_, ?_⟩
  · exact isWhiteSpace_of_digit (h c (by simp))
  · exact hnot '\t' (by decide) (by decide) (by decide)
  · exact hnot ':' (by decide) (by decide) (by decide)

theorem DumpValue.column (v : DumpValue) : Column v.text := by
  apply column_of_digits
  · intro hnil
    have htwo := v.two
    rw [hnil] at htwo
    cases htwo
  · exact isSome_digitValue_of_parseDigits v.reads

theorem hexText_column (address : UInt64) : Column (hexText address) := by
  apply column_of_digits Nat.toDigits_ne_nil
  exact isSome_digitValue_of_parseDigits (parseDigits_toDigits (by norm_num) (by norm_num) _)

/-- The message is a column, whatever the address is. -/
theorem messageText_column (address : UInt64) : Column (messageText address) := by
  obtain ⟨-, ⟨rest, c, hlast, hwhite⟩, htab, hcolon⟩ := hexText_column address
  have hnot : ∀ d, d ∉ message.toList → d ≠ ' ' → d ∉ hexText address →
      d ∉ messageText address := by
    intro d hmessage hblank haddress hmem
    rw [messageText, List.mem_append, List.mem_cons, or_iff_right hmessage,
      or_iff_right hblank] at hmem
    exact haddress hmem
  refine ⟨⟨'C', _, rfl, by decide⟩, ⟨message.toList ++ ' ' :: rest, c, ?_, hwhite⟩, ?_, ?_⟩
  · rw [messageText, hlast]
    simp
  · exact hnot '\t' (by decide) (by decide) htab
  · exact hnot ':' (by decide) (by decide) hcolon

/-- Columns with a tab in front of each. -/
def tabbed (columns : List (List Char)) : List Char := columns.flatMap fun column => '\t' :: column

variable {column : List Char} {columns : List (List Char)}

theorem colon_not_mem_tabbed (h : ∀ c ∈ columns, Column c) : ':' ∉ tabbed columns := by
  intro hmem
  obtain ⟨column, hcolumn, hcolon⟩ := List.mem_flatMap.mp hmem
  rcases List.mem_cons.mp hcolon with heq | hcolon
  · cases heq
  · exact (h column hcolumn).colon hcolon

theorem columns_end (h : ∀ c ∈ column :: columns, Column c) :
    ∃ front d, column ++ tabbed columns = front ++ [d] ∧ isWhiteSpace d = false := by
  induction columns generalizing column with
  | nil =>
      obtain ⟨front, d, rfl, hd⟩ := (h column List.mem_cons_self).back
      exact ⟨front, d, by simp [tabbed], hd⟩
  | cons next columns ih =>
      obtain ⟨front, d, hlast, hd⟩ := ih (List.forall_mem_cons.mp h).2
      refine ⟨column ++ '\t' :: front, d, ?_, hd⟩
      rw [List.append_assoc, List.cons_append, ← hlast]
      simp [tabbed]

theorem columns_split (h : ∀ c ∈ column :: columns, Column c) :
    (column ++ tabbed columns).splitOn '\t' = column :: columns := by
  induction columns generalizing column with
  | nil =>
      rw [tabbed, List.flatMap_nil, List.append_nil]
      exact List.splitOn_eq_singleton (h column List.mem_cons_self).tab
  | cons next columns ih =>
      obtain ⟨hcolumn, hrest⟩ := List.forall_mem_cons.mp h
      have htabbed : tabbed (next :: columns) = '\t' :: (next ++ tabbed columns) := by simp [tabbed]
      rw [htabbed, List.splitOn_append_cons_self_of_not_mem hcolumn.tab, ih hrest]

/-- The columns are what is split behind the colon. -/
theorem split_values (h : ∀ c ∈ column :: columns, Column c) :
    (trim ((tabbed (column :: columns)).dropWhile isWhiteSpace)).splitOn '\t' =
      column :: columns := by
  obtain ⟨c, rest, hfront, hc⟩ := (h column List.mem_cons_self).front
  obtain ⟨front, d, hback, hd⟩ := columns_end h
  have hdrop : (tabbed (column :: columns)).dropWhile isWhiteSpace = column ++ tabbed columns := by
    have htab : tabbed (column :: columns) = '\t' :: (column ++ tabbed columns) := by simp [tabbed]
    rw [htab, List.dropWhile_cons, if_pos (by decide), hfront, List.cons_append,
      List.dropWhile_cons, hc]
    rfl
  have hcons : column ++ tabbed columns = c :: (rest ++ tabbed columns) := by
    rw [hfront, List.cons_append]
  have htrim := trim_of_ends hcons hc hback hd
  rw [hdrop, htrim, columns_split h]

/-! ## The bytes of a line -/

variable {buffer : List UInt8}

/-- A byte more in the buffer. -/
theorem readInto_push {bytes : List UInt8} (h : bytes.length < buffer.length) (byte : UInt8) :
    ((readInto buffer bytes).1.set (readInto buffer bytes).2 byte,
      (readInto buffer bytes).2 + 1) = readInto buffer (bytes ++ [byte]) := by
  obtain ⟨old, rest, hdrop⟩ : ∃ old rest, buffer.drop bytes.length = old :: rest :=
    ⟨_, _, List.drop_eq_getElem_cons h⟩
  have hnext : buffer.drop (bytes.length + 1) = rest := by
    rw [← List.drop_drop, hdrop]
    rfl
  simp only [readInto, List.length_append, List.length_singleton]
  rw [List.take_of_length_le h.le, List.take_of_length_le (by simp; omega), Nat.min_eq_left h.le,
    Nat.min_eq_left (by omega), hnext, hdrop, List.append_assoc,
    List.set_append_right _ _ (Nat.le_refl _), Nat.sub_self]
  rfl

/-- A full buffer takes nothing more. -/
theorem readInto_full {bytes : List UInt8} (h : buffer.length ≤ bytes.length) (more : List UInt8) :
    readInto buffer (bytes ++ more) = readInto buffer bytes := by
  simp only [readInto, List.length_append]
  rw [List.take_append_of_le_length h, List.drop_eq_nil_of_le h, List.drop_eq_nil_of_le (by omega),
    Nat.min_eq_right h, Nat.min_eq_right (by omega)]

theorem readInto_length (buffer bytes : List UInt8) :
    (readInto buffer bytes).1.length = buffer.length := by
  simp [readInto]
  omega

/-- The test of both loops. -/
theorem readInto_full_iff (buffer bytes : List UInt8) :
    (readInto buffer bytes).1.length ≤ (readInto buffer bytes).2 ↔
      buffer.length ≤ bytes.length := by
  have hlength := readInto_length buffer bytes
  have hcount : (readInto buffer bytes).2 = min bytes.length buffer.length := rfl
  omega

theorem DumpValue.byteParseHex_digits (v : DumpValue) : byteParseHex v.digits = some v.byte := by
  have hdigits := isSome_digitValue_of_parseDigits v.reads
  have htrim : trimWhite v.digits = v.digits :=
    trimWhite_of_none fun c hc => isWhite_of_digit (hdigits c hc)
  have hlt : v.byte.toNat < 2 ^ 8 := v.byte.toNat_lt
  rw [byteParseHex, htrim, v.reads, Option.filter_some, if_pos (by simpa using hlt), Option.map_some,
    UInt8.ofNat_toNat]

/-- Where the values of a line end, nothing is read. -/
theorem readValues_end {columns : List (List Char)} (h : ∀ c ∈ columns, ¬"0x".toList <+: c)
    (read : List UInt8 × Nat) : ReadMemoryRH.readValues columns read = read := by
  cases columns with
  | nil => rfl
  | cons column columns =>
      rw [ReadMemoryRH.readValues, if_neg (h column List.mem_cons_self), ite_self]

/-- The loop over the values of a line. -/
theorem readValues_eq (values : List DumpValue) {columns : List (List Char)}
    (h : ∀ c ∈ columns, ¬"0x".toList <+: c) (bytes : List UInt8) :
    ReadMemoryRH.readValues (values.map DumpValue.text ++ columns) (readInto buffer bytes) =
      readInto buffer (bytes ++ values.map DumpValue.byte) := by
  induction values generalizing bytes with
  | nil => rw [List.map_nil, List.nil_append, readValues_end h, List.map_nil, List.append_nil]
  | cons v values ih =>
      have hpair : readInto buffer bytes = ((readInto buffer bytes).1, (readInto buffer bytes).2) :=
        rfl
      rw [List.map_cons, List.cons_append, hpair, ReadMemoryRH.readValues]
      have hfull_iff := readInto_full_iff buffer bytes
      by_cases hfull : buffer.length ≤ bytes.length
      · rw [if_pos (hfull_iff.mpr hfull), readInto_full hfull]
      · have hprefix : "0x".toList <+: v.text := ⟨v.digits, rfl⟩
        have hdigits : v.text.drop 2 = v.digits := rfl
        rw [if_neg (mt hfull_iff.mp hfull), if_pos hprefix, hdigits, v.byteParseHex_digits]
        dsimp only
        rw [readInto_push (by omega), ih, List.append_assoc]
        rfl

/-! ## The lines -/

theorem occurs_symbolText {l : DumpLine chars} (hchars : chars.LettersOnly)
    (h : (rMessage chars).Occurs l.place) : (rMessage chars).Occurs l.symbolText := by
  obtain ⟨before, behind, hline, haccepts⟩ := h
  obtain ⟨white, rest, rfl, hwhite, hrest⟩ := (accepts_rMessage_iff hchars).mp haccepts
  rcases List.append_eq_append_iff.mp hline with ⟨more, -, hmore⟩ | ⟨more, hmore, hrest'⟩
  · exact ⟨more, _, hmore, haccepts⟩
  · cases more with
    | nil => exact ⟨[], _, hrest'.symm, haccepts⟩
    | cons c more =>
        obtain ⟨rfl, -⟩ := List.cons_eq_cons.mp hrest'
        have hmem : ':' ∈ hexText l.address := by
          rw [hmore]
          exact List.mem_append_right before List.mem_cons_self
        exact absurd hmem (hexText_column l.address).colon

theorem not_occurs_place (hchars : chars.LettersOnly) (l : DumpLine chars) :
    ¬(rMessage chars).Occurs l.place := by
  intro h
  have hsymbol := occurs_symbolText hchars h
  rw [DumpLine.symbolText] at hsymbol
  split at hsymbol
  · rename_i symbol _
    exact symbol.clean hsymbol
  · obtain ⟨before, behind, hnil, haccepts⟩ := hsymbol
    obtain ⟨-, rfl⟩ := List.append_eq_nil_iff.mp hnil.symm
    obtain ⟨white, rest, hcons, -⟩ := (accepts_rMessage_iff hchars).mp haccepts
    cases hcons

/-- No message is met in a line with values, nor in one with nothing behind the colon. -/
theorem not_message (hchars : chars.LettersOnly) (l : DumpLine chars) {columns : List (List Char)}
    (hcolumns : ∀ c ∈ columns, Column c)
    (hfirst : columns = [] ∨ ∃ v : DumpValue, ∃ rest, columns = v.text :: rest) :
    (ReadMemoryRH.rError chars).search (l.place ++ ':' :: tabbed columns) = none := by
  rw [← Option.not_isSome_iff_eq_none, Pattern.search_isSome]
  intro hoccurs
  rcases occurs_message hchars (colon_not_mem_tabbed hcolumns) (rMessage_of_rError hoccurs) with
    hplace | ⟨white, rest, hsplit, hwhite, hrest⟩
  · exact not_occurs_place hchars l hplace
  · -- the first letter of the message would be a tab, or the 0 of a value
    obtain ⟨c, rest', rfl, htab, hzero⟩ := message_head hchars hrest
    rcases hfirst with rfl | ⟨v, others, rfl⟩
    · cases (List.append_eq_nil_iff.mp hsplit.symm).2
    · have hline : tabbed (v.text :: others) = '\t' :: '0' :: ('x' :: v.digits ++ tabbed others) := by
        simp [tabbed, DumpValue.text]
      rw [hline] at hsplit
      match white, hwhite, hsplit with
      | [], _, hsplit => exact htab (List.cons_eq_cons.mp hsplit).1.symm
      | [_], _, hsplit => exact hzero (List.cons_eq_cons.mp (List.cons_eq_cons.mp hsplit).2).1.symm
      | _ :: d :: _, hwhite, hsplit =>
          have hd := hwhite d (by simp)
          rw [← (List.cons_eq_cons.mp (List.cons_eq_cons.mp hsplit).2).1] at hd
          cases hd

theorem readLines_full {bytes : List UInt8} (h : buffer.length ≤ bytes.length)
    (lines : List (List Char)) :
    ReadMemoryRH.readLines chars lines (readInto buffer bytes) = readInto buffer bytes := by
  cases lines with
  | nil => rfl
  | cons line lines => exact if_pos ((readInto_full_iff buffer bytes).mpr h)

theorem values_columns (values : List DumpValue) (h : ∀ c ∈ columns, Column c) :
    ∀ c ∈ values.map DumpValue.text ++ columns, Column c := by
  intro c hc
  rcases List.mem_append.mp hc with hc | hc
  · obtain ⟨v, -, rfl⟩ := List.mem_map.mp hc
    exact v.column
  · exact h c hc

/-- The values of a line, with what is split behind the colon. -/
theorem readValues_line (l : DumpLine chars)
    (hcolumns : ∀ c ∈ columns, Column c ∧ ¬"0x".toList <+: c)
    (hfirst : l.values = [] → columns = []) (bytes : List UInt8) :
    ReadMemoryRH.readValues ((trim ((tabbed (l.values.map DumpValue.text ++ columns)).dropWhile
        isWhiteSpace)).splitOn '\t') (readInto buffer bytes) =
      readInto buffer (bytes ++ l.bytes) := by
  cases hvalues : l.values with
  | nil =>
      have hnothing : (trim ((tabbed []).dropWhile isWhiteSpace)).splitOn '\t' = [[]] := by decide
      have hend : ∀ c ∈ [[]], ¬"0x".toList <+: c := by decide
      rw [hfirst hvalues, DumpLine.bytes, hvalues, List.map_nil, List.map_nil, List.append_nil,
        List.append_nil, hnothing, readValues_end hend]
  | cons v values =>
      have hall : ∀ c ∈ (v :: values).map DumpValue.text ++ columns, Column c :=
        values_columns (v :: values) fun c hc => (hcolumns c hc).1
      have hsplit : (trim ((tabbed ((v :: values).map DumpValue.text ++ columns)).dropWhile
          isWhiteSpace)).splitOn '\t' = (v :: values).map DumpValue.text ++ columns :=
        split_values hall
      rw [hsplit, readValues_eq _ fun c hc => (hcolumns c hc).2, DumpLine.bytes, hvalues]

/-- A line, or the front of one that is cut off. -/
theorem readLines_line (hchars : chars.LettersOnly) (l : DumpLine chars)
    {columns : List (List Char)} (hcolumns : ∀ c ∈ columns, Column c ∧ ¬"0x".toList <+: c)
    (hfirst : l.values = [] → columns = []) (lines : List (List Char)) (bytes : List UInt8) :
    ReadMemoryRH.readLines chars
        ((l.place ++ ':' :: tabbed (l.values.map DumpValue.text ++ columns)) :: lines)
        (readInto buffer bytes) =
      ReadMemoryRH.readLines chars lines (readInto buffer (bytes ++ l.bytes)) := by
  by_cases hfull : buffer.length ≤ bytes.length
  · rw [readInto_full hfull, readLines_full hfull, readLines_full hfull]
  have hall := values_columns l.values fun c hc => (hcolumns c hc).1
  have hback := colon_not_mem_tabbed hall
  have herror := not_message hchars l hall (by
    cases hvalues : l.values with
    | nil => exact .inl (hfirst hvalues)
    | cons v values => exact .inr ⟨v, _, rfl⟩)
  have hsuccess : (ReadMemoryRH.rSuccess chars).search ('0' :: 'x' ::
      (Nat.toDigits 16 l.address.toNat ++ l.symbolText ++
        ':' :: tabbed (l.values.map DumpValue.text ++ columns))) = some [_] :=
    search_values hchars hback
  have hpair : readInto buffer bytes = ((readInto buffer bytes).1, (readInto buffer bytes).2) := rfl
  rw [hpair, ReadMemoryRH.readLines, if_neg (mt (readInto_full_iff buffer bytes).mp hfull), herror,
    l.place_append, hsuccess]
  exact congrArg (ReadMemoryRH.readLines chars lines) (readValues_line l hcolumns hfirst bytes)

/-- A line with nothing but the message ends the loop. -/
theorem readLines_message (hchars : chars.LettersOnly) (l : DumpLine chars) {white : List Char}
    (hwhite : ∀ c ∈ white, isWhiteSpace c = true) (address : UInt64) (lines : List (List Char))
    (read : List UInt8 × Nat) :
    ReadMemoryRH.readLines chars
      ((l.place ++ ':' :: (white ++ messageText address)) :: lines) read = read := by
  have hsame : ∀ letters : List Char,
      List.Forall₂ (fun c d => chars.toLower d = chars.toLower c) letters letters := by
    intro letters
    exact List.forall₂_same.mpr fun _ _ => rfl
  have hmessage : Pattern.Accepts (Regex.text chars message ++ [anything false])
      (messageText address) := accepts_of_same (hsame _) (accepts_anything _)
  have hend : (rMessage chars).Accepts (':' :: (white ++ messageText address)) :=
    (accepts_rMessage_iff hchars).mpr ⟨white, _, rfl, hwhite, hmessage⟩
  have hoccurs : (ReadMemoryRH.rError chars).Occurs
      (l.place ++ ':' :: (white ++ messageText address)) := by
    refine ⟨[], l.place ++ ':' :: (white ++ messageText address), rfl, ?_⟩
    rw [rError_eq, l.place_append]
    exact accepts_of_same (hsame "0x".toList) (.star (fun _ _ => rfl) hend)
  have herror := (Pattern.search_isSome _ _).mpr hoccurs
  obtain ⟨buffer, readBytes⟩ := read
  rw [ReadMemoryRH.readLines, if_pos herror, ite_self]

theorem readLines_lines (hchars : chars.LettersOnly) (dumped : List (DumpLine chars))
    (lines : List (List Char)) (bytes : List UInt8) :
    ReadMemoryRH.readLines chars (dumped.map DumpLine.text ++ lines) (readInto buffer bytes) =
      ReadMemoryRH.readLines chars lines
        (readInto buffer (bytes ++ dumped.flatMap DumpLine.bytes)) := by
  induction dumped generalizing bytes with
  | nil => rw [List.map_nil, List.nil_append, List.flatMap_nil, List.append_nil]
  | cons l dumped ih =>
      have htext : l.text = l.place ++ ':' :: tabbed (l.values.map DumpValue.text ++ []) := by
        simp [DumpLine.text, tabbed, List.flatMap_map]
      rw [List.map_cons, List.cons_append, htext,
        readLines_line hchars l (by simp) (fun _ => rfl), ih, List.flatMap_cons, List.append_assoc]

/-- The line that is cut off. -/
theorem readLines_cut (hchars : chars.LettersOnly) (c : CutLine chars) (bytes : List UInt8) :
    ReadMemoryRH.readLines chars [c.text] (readInto buffer bytes) =
      readInto buffer (bytes ++ c.line.bytes) := by
  cases hvalues : c.line.values with
  | nil =>
      have htext : c.text = c.line.place ++ ':' :: (c.gap ++ messageText c.address) := by
        simp [CutLine.text, DumpLine.text, hvalues]
      rw [htext, readLines_message hchars c.line c.white, DumpLine.bytes, hvalues, List.map_nil,
        List.append_nil]
  | cons v values =>
      have hgap : c.gap = ['\t'] := c.tab (by simp [hvalues])
      have htext : c.text = c.line.place ++
          ':' :: tabbed (c.line.values.map DumpValue.text ++ [messageText c.address]) := by
        simp [CutLine.text, DumpLine.text, hgap, tabbed, List.flatMap_map]
      have hcolumns : ∀ column ∈ [messageText c.address],
          Column column ∧ ¬"0x".toList <+: column := by
        rintro column hcolumn
        rw [List.mem_singleton.mp hcolumn]
        refine ⟨messageText_column c.address, ?_⟩
        rintro ⟨rest, hrest⟩
        exact absurd (List.cons_eq_cons.mp hrest).1 (by decide)
      rw [htext, readLines_line hchars c.line hcolumns (by simp [hvalues]), ReadMemoryRH.readLines]

/-! ## Every dump -/

/-- The first bytes of a dump are stored, as many as there is room for, and their number is
reported. -/
theorem readMemory_dump (hchars : chars.LettersOnly) (returns : Callback → Bool)
    (d : Dump chars) (buffer : List UInt8) :
    ReadMemoryRH.handleResponse chars returns buffer d.text false =
      .invoke returns (.readMemory (min d.bytes.length buffer.length)
        (d.bytes.take buffer.length ++ buffer.drop d.bytes.length)) := by
  have hstart : (buffer, 0) = readInto buffer [] := by simp [readInto]
  have hlines : ReadMemoryRH.readLines chars d.text (buffer, 0) = readInto buffer d.bytes := by
    rw [hstart, Dump.text, readLines_lines hchars, List.nil_append, Dump.bytes]
    cases d.last with
    | none =>
        rw [Option.map_none, Option.map_none, Option.getD_none, List.append_nil]
        rfl
    | some c => exact readLines_cut hchars c _
  rw [ReadMemoryRH.handleResponse, if_neg Bool.false_ne_true, hlines]
  rfl

/-- A symbol with two colons, and with a space in it. -/
def sampleSymbol : SymbolText asciiData where
  name := "Log::write(char const*)+4".toList
  clean := by
    rw [← Pattern.search_isSome]
    decide +kernel

def sampleDump : Dump asciiData where
  lines := [⟨0x4005d0, some sampleSymbol,
    [⟨0x41, ['4', '1'], rfl, rfl⟩, ⟨0xfa, ['F', 'a'], rfl, rfl⟩]⟩]
  last := some ⟨⟨0x4005d2, none, [⟨0x07, ['0', '7'], rfl, rfl⟩]⟩, ['\t'], 0x4005d3,
    List.forall_mem_singleton.mpr rfl, fun _ => rfl⟩

theorem sample_dump_read : ReadMemoryRH.handleResponse asciiData (fun _ => true) [1, 2, 3, 4]
    ["0x4005d0 <Log::write(char const*)+4>:\t0x41\t0xFa".toList,
      "0x4005d2:\t0x07\tCannot access memory at address 0x4005d3".toList] false =
    ⟨[.readMemory 3 [0x41, 0xfa, 0x07, 4]], some .handled⟩ :=
  readMemory_dump asciiData_lettersOnly (fun _ => true) sampleDump [1, 2, 3, 4]

end InMemoryFuzzing.Gdb

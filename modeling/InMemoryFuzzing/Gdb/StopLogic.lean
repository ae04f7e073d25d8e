import InMemoryFuzzing.Gdb.StopHandlers
import InMemoryFuzzing.Gdb.Theorems.Signals

/-!
# The stops that gdb announces

What gdb writes when the program stops (`Announcement`), what each handler finds in
it, and in which lines none of them finds anything (`Unclaimed`).
-/

namespace InMemoryFuzzing.Gdb

open Base Platform DotNet Regex
open DataLog (StopReasonEnum)

/-! ## Lines that no handler claims -/

/-- None of the handlers in front of `UnhandledRH` finds a stop in the line. -/
structure Unclaimed (chars : CharData) (line : List Char) : Prop where
  rAddress : (BreakpointRH.rAddress chars).search line = none
  rSymbol : (BreakpointRH.rSymbol chars).search line = none
  normal : (ExitRH.normal chars).search line = none
  withCode : (ExitRH.withCode chars).search line = none
  signal : (SignalRH.r chars).search line = none
  recordLog : (RecordLogRH.r chars).search line = none

variable {chars : CharData} {breakpoints : Breakpoints} {allowRequestLine : Bool}
  {lines : List (List Char)}

theorem breakpointRH_unclaimed (h : ∀ line ∈ lines, (BreakpointRH.rAddress chars).search line = none ∧
    (BreakpointRH.rSymbol chars).search line = none) :
    BreakpointRH.handleResponse chars breakpoints lines = .ok (.notHandled, []) := by
  induction lines with
  | nil => rfl
  | cons line lines ih =>
      rw [List.forall_mem_cons] at h
      simp only [BreakpointRH.handleResponse, h.1.1, h.1.2, ih h.2]

theorem exitRH_unclaimed (h : ∀ line ∈ lines, (ExitRH.normal chars).search line = none ∧
    (ExitRH.withCode chars).search line = none) :
    ExitRH.handleResponse chars lines = .ok (.notHandled, []) := by
  induction lines with
  | nil => rfl
  | cons line lines ih =>
      rw [List.forall_mem_cons] at h
      simp only [ExitRH.handleResponse, h.1.1, h.1.2, ih h.2]

theorem signalRH_unclaimed (h : ∀ line ∈ lines, (SignalRH.r chars).search line = none) :
    signalHandling chars allowRequestLine lines = .ok (.notHandled, []) := by
  have hloop : SignalRH.handleResponse chars allowRequestLine lines = .ok (.notHandled, []) := by
    induction lines with
    | nil => rfl
    | cons line lines ih =>
        rw [List.forall_mem_cons] at h
        simp only [SignalRH.handleResponse, h.1, ih h.2]
  rw [signalHandling, hloop]
  rfl

theorem recordLogRH_unclaimed (h : ∀ line ∈ lines, (RecordLogRH.r chars).search line = none) :
    RecordLogRH.handleResponse chars breakpoints allowRequestLine lines =
      .ok (.notHandled, []) := by
  induction lines with
  | nil => rfl
  | cons line lines ih =>
      rw [List.forall_mem_cons] at h
      simp only [RecordLogRH.handleResponse, h.1, ih h.2]

/-- Such lines come to `UnhandledRH`. -/
theorem receivedNewLine_unclaimed {gdbReadyForInput : Bool}
    (h : ∀ line ∈ lines, Unclaimed chars line) :
    receivedNewLine chars breakpoints gdbReadyForInput lines = .ok ([], []) := by
  rw [receivedNewLine, permanentHandlings,
    breakpointRH_unclaimed fun line hline => ⟨(h line hline).rAddress, (h line hline).rSymbol⟩,
    exitRH_unclaimed fun line hline => ⟨(h line hline).normal, (h line hline).withCode⟩,
    signalRH_unclaimed fun line hline => (h line hline).signal,
    recordLogRH_unclaimed fun line hline => (h line hline).recordLog]
  rfl

theorem receiveOutput_unclaimed {before : List (List Char)}
    (h : ∀ line ∈ before, Unclaimed chars line) (output : List (List Char)) :
    receiveOutput chars breakpoints [] (before ++ output) =
      receiveOutput chars breakpoints [] output := by
  induction before with
  | nil => rfl
  | cons line before ih =>
      rw [List.forall_mem_cons] at h
      rw [List.cons_append, receiveOutput, List.nil_append,
        receivedNewLine_unclaimed (by simpa using h.1), ok_bind]
      dsimp only
      rw [ih h.2]
      cases receiveOutput chars breakpoints [] output <;> rfl

theorem receiveOutput_all_unclaimed (h : ∀ line ∈ lines, Unclaimed chars line) :
    receiveOutput chars breakpoints [] lines = .ok ([], []) := by
  have hskip : receiveOutput chars breakpoints [] (lines ++ []) = _ := receiveOutput_unclaimed h []
  rw [List.append_nil] at hskip
  rw [hskip, receiveOutput, receivedNewLine_unclaimed (fun line hline => by cases hline)]

/-! ## What gdb writes -/

/-- An address as gdb prints it, with or without zeros in front. -/
structure PrintedAddress where
  value : UInt64
  digits : List Char
  hex : parseDigits 16 digits = some value.toNat

namespace PrintedAddress

/-- Without zeros in front. -/
def of (value : UInt64) : PrintedAddress :=
  ⟨value, Nat.toDigits 16 value.toNat, parseDigits_toDigits (by omega) (by omega) _⟩

variable (address : PrintedAddress)

theorem digit {c : Char} (hc : c ∈ address.digits) : isWhiteSpace c = false :=
  isWhiteSpace_of_digit (isSome_digitValue_of_parseDigits address.hex c hc)

theorem tryParse : uint64TryParseHex address.digits = some address.value := by
  have htrim : trimWhite address.digits = address.digits :=
    trimWhite_of_none fun c hc =>
      isWhite_of_digit (isSome_digitValue_of_parseDigits address.hex c hc)
  have hlt : address.value.toNat < 2 ^ 64 := address.value.toNat_lt
  rw [uint64TryParseHex, htrim, address.hex, Option.filter_some, if_pos (by simpa using hlt),
    Option.map_some, UInt64.ofNat_toNat]

theorem parse : uint64ParseHex address.digits = .ok address.value :=
  SignalRH.uint64ParseHex_ok_iff.mpr address.tryParse

end PrintedAddress

/-! ## Breakpoints -/

/-- A breakpoint in the middle of a line of the source: the address is printed. -/
def breakpointText (num : Nat) (address : PrintedAddress) (place : List Char) : List Char :=
  "Breakpoint ".toList ++ (Nat.toDigits 10 num ++ (", 0x".toList ++ (address.digits ++ ' ' :: place)))

/-- A breakpoint at the beginning of a line of the source. -/
def sourceText (num : Nat) (function args file : List Char) : List Char :=
  "Breakpoint ".toList ++ (Nat.toDigits 10 num ++
    (", ".toList ++ (function ++ (" (".toList ++ (args ++ (") at ".toList ++ file))))))

/-- The digits of a number are digits, and no white space. -/
theorem toDigits_isDigit (hchars : chars.Ascii) {num : Nat} {c : Char}
    (hc : c ∈ Nat.toDigits 10 num) : chars.isDigit c = true := by
  obtain ⟨d, hd, rfl⟩ := mem_toDigits (by omega) hc
  have hascii : d.digitChar.toNat < 128 ∧ d.digitChar.isDigit = true := by
    interval_cases d <;> exact ⟨by decide, rfl⟩
  rw [hchars.digit _ hascii.1, hascii.2]

theorem exists_toDigits (num : Nat) : ∃ c rest, Nat.toDigits 10 num = c :: rest ∧
    isWhiteSpace c = false := by
  cases h : Nat.toDigits 10 num with
  | nil => exact absurd h Nat.toDigits_ne_nil
  | cons c rest =>
      have hparse : parseDigits 10 (Nat.toDigits 10 num) = some num :=
        parseDigits_toDigits (by omega) (by omega) num
      exact ⟨c, rest, rfl, isWhiteSpace_of_digit
        (isSome_digitValue_of_parseDigits hparse c (h ▸ List.mem_cons_self))⟩

/-- The number of a breakpoint, with the pattern behind the comma. -/
theorem matchFront_number (hchars : chars.Ascii) (num : Nat) {rest : Pattern Char}
    {back : List Char} {groups : List (List Char)}
    (h : rest.matchFront back = some groups) :
    Pattern.matchFront (text chars "Breakpoint" ++ ([spaces, digits chars, spaces] ++
        (text chars "," ++ rest)))
      ("Breakpoint ".toList ++ (Nat.toDigits 10 num ++ ',' :: back)) =
      some (Nat.toDigits 10 num :: groups) := by
  obtain ⟨c, front, hdigits, hc⟩ := exists_toDigits num
  have hcomma : Pattern.matchFront (text chars "," ++ rest) (',' :: back) = some groups :=
    (matchFront_text chars "," rest back).trans h
  have hspaces : Pattern.matchFront (spaces :: (text chars "," ++ rest)) ([] ++ ',' :: back) =
      some (Pattern.group false ([], groups)) :=
    Pattern.matchFront_star_stop (by simp) rfl hcomma
  have hnumber : Pattern.matchFront (digits chars :: spaces :: (text chars "," ++ rest))
      (Nat.toDigits 10 num ++ ',' :: back) =
      some (Pattern.group true (Nat.toDigits 10 num, groups)) :=
    Pattern.matchFront_plus_stop Nat.toDigits_ne_nil (fun _ => toDigits_isDigit hchars)
      (hchars.digit _ (by decide)) hspaces
  have hblank : Pattern.matchFront (spaces :: digits chars :: spaces :: (text chars "," ++ rest))
      ([' '] ++ (Nat.toDigits 10 num ++ ',' :: back)) =
      some (Pattern.group false ([' '], Nat.toDigits 10 num :: groups)) := by
    rw [hdigits] at hnumber ⊢
    exact Pattern.matchFront_star_stop (by simp [isWhiteSpace, isWhite]) hc hnumber
  rw [show "Breakpoint ".toList = "Breakpoint".toList ++ [' '] from rfl, List.append_assoc,
    matchFront_text]
  exact hblank

theorem search_breakpointText (hchars : chars.Ascii) (num : Nat) (address : PrintedAddress)
    (place : List Char) :
    (BreakpointRH.rAddress chars).search (breakpointText num address place) =
      some [Nat.toDigits 10 num, address.digits] := by
  have haddress : Pattern.matchFront [word true] (address.digits ++ ' ' :: place) =
      some [address.digits] := by
    have hword : ∀ c ∈ address.digits, (!isWhiteSpace c) = true := by
      intro c hc
      rw [address.digit hc]
      rfl
    exact Pattern.matchFront_star_stop hword rfl rfl
  have hzero : Pattern.matchFront (text chars "0x" ++ [word true])
      ("0x".toList ++ (address.digits ++ ' ' :: place)) = some [address.digits] :=
    (matchFront_text chars "0x" _ _).trans haddress
  have hblank : Pattern.matchFront ([spaces] ++ (text chars "0x" ++ [word true]))
      ([' '] ++ '0' :: 'x' :: (address.digits ++ ' ' :: place)) = some [address.digits] :=
    Pattern.matchFront_star_stop (by simp [isWhiteSpace, isWhite]) rfl hzero
  apply Pattern.search_of_matchFront
  rw [BreakpointRH.rAddress]
  simp only [List.append_assoc]
  exact matchFront_number hchars num hblank

/-- The function, its arguments and the file. -/
theorem matchFront_function {function : List Char}
    (hfunction : ∀ c ∈ function, isWhiteSpace c = false) (args file : List Char) :
    Pattern.matchFront ([spaces, word false, spaces] ++ (text chars "(" ++ ([anything false] ++
        (text chars ")" ++ ([spaces] ++ (text chars "at" ++ [spaces, anything false]))))))
      (' ' :: (function ++ (" (".toList ++ (args ++ (") at ".toList ++ file))))) = some [] := by
  apply Pattern.matchFront_nil
  · simp only [Pattern.captures_append, captures_text]
    rfl
  · have hnone : ∀ p : Char → Bool, ∀ c ∈ ([] : List Char), p c = true := nofun
    have hblank : ∀ c ∈ [' '], isWhiteSpace c = true := by simp [isWhiteSpace, isWhite]
    have hfile : Pattern.Accepts [spaces, anything false] ([' '] ++ file) :=
      .star hblank (accepts_anything file)
    have hat : Pattern.Accepts ([spaces] ++ (text chars "at" ++ [spaces, anything false]))
        ([' '] ++ ("at".toList ++ ([' '] ++ file))) :=
      .star hblank (accepts_same "at" hfile)
    have hargs : Pattern.Accepts ([anything false] ++ (text chars ")" ++ ([spaces] ++
        (text chars "at" ++ [spaces, anything false]))))
        (args ++ (")".toList ++ ([' '] ++ ("at".toList ++ ([' '] ++ file))))) :=
      .star (fun _ _ => rfl) (accepts_same ")" hat)
    show Pattern.Accepts _ ([' '] ++ (function ++ ([' '] ++ ("(".toList ++ _))))
    exact .star hblank (.star (by simpa using hfunction) (.star hblank (accepts_same "(" hargs)))

theorem search_sourceText (hchars : chars.Ascii) (num : Nat) {function : List Char}
    (hfunction : ∀ c ∈ function, isWhiteSpace c = false) (args file : List Char) :
    (BreakpointRH.rSymbol chars).search (sourceText num function args file) =
      some [Nat.toDigits 10 num] := by
  apply Pattern.search_of_matchFront
  rw [BreakpointRH.rSymbol]
  simp only [List.append_assoc]
  exact matchFront_number hchars num (matchFront_function hfunction args file)

/-! ## Exits -/

/-- An exit, as gdb has printed it before it knew of inferiors. -/
def exitText : List Char := "Program exited normally.".toList

def exitCodeText (code : List Char) : List Char :=
  "Program exited with code ".toList ++ (code ++ ['.'])

/-- An exit, as gdb has printed it since. -/
def inferiorText (num pid : Nat) (how : List Char) : List Char :=
  "[Inferior ".toList ++ (Nat.toDigits 10 num ++ (" (process ".toList ++
    (Nat.toDigits 10 pid ++ (") exited ".toList ++ (how ++ [']'])))))

def inferiorExitText (num pid : Nat) : List Char := inferiorText num pid "normally".toList

def inferiorExitCodeText (num pid : Nat) (code : List Char) : List Char :=
  inferiorText num pid ("with code ".toList ++ code)

/-- The end of the program by a signal. -/
def terminatedText (name friendly : List Char) : List Char :=
  "Program terminated with signal ".toList ++ (name ++ ',' :: ' ' :: friendly)

/-- An ASCII line without a letter, in either case. -/
def without (letter : Char) (line : List Char) : Bool :=
  line.all fun c => c.toNat < 128 && c.toLower != letter

theorem without_append {letter : Char} {front back : List Char} :
    without letter (front ++ back) = true ↔ without letter front = true ∧ without letter back = true := by
  rw [without, List.all_append, Bool.and_eq_true]
  exact Iff.rfl

theorem without_digits {letter : Char} (hletter : letter.isLower = true) {digits : List Char}
    (hdigits : ∀ c ∈ digits, c.isDigit = true) : without letter digits = true := by
  refine List.all_eq_true.mpr fun c hc => ?_
  have hrange : 48 ≤ c.toNat ∧ c.toNat ≤ 57 := by
    have hdigit := hdigits c hc
    simp only [Char.isDigit, Bool.and_eq_true, decide_eq_true_eq] at hdigit
    exact hdigit
  have hlower : c.toLower = c := toLower_of_not_upper (by
    rw [Bool.eq_false_iff, ne_eq, isUpper_iff]
    omega)
  have hne : c ≠ letter := by
    rintro rfl
    have hletter := isLower_iff.mp hletter
    omega
  rw [hlower, Bool.and_eq_true, decide_eq_true_iff, bne_iff_ne]
  exact ⟨by omega, hne⟩

theorem without_toDigits {letter : Char} (hletter : letter.isLower = true) (num : Nat) :
    without letter (Nat.toDigits 10 num) = true := by
  refine without_digits hletter fun c hc => ?_
  obtain ⟨d, hd, rfl⟩ := mem_toDigits (by omega) hc
  interval_cases d <;> rfl

theorem without_inferiorText {letter : Char} (hletter : letter.isLower = true) (num pid : Nat)
    {how : List Char}
    (hfront : without letter "[Inferior  (process ) exited ]".toList = true)
    (hhow : without letter how = true) : without letter (inferiorText num pid how) = true := by
  have hsplit : "[Inferior  (process ) exited ]".toList = "[Inferior ".toList ++
      (" (process ".toList ++ (") exited ".toList ++ [']'])) := by simp
  rw [hsplit, without_append, without_append, without_append] at hfront
  obtain ⟨hinferior, hprocess, hexited, hend⟩ := hfront
  show without letter ("[Inferior ".toList ++ (_ ++ (_ ++ (_ ++ (_ ++ (_ ++ _)))))) = true
  rw [without_append, without_append, without_append, without_append, without_append, without_append]
  exact ⟨hinferior, without_toDigits hletter num, hprocess, without_toDigits hletter pid, hexited,
    hhow, hend⟩

theorem toLower_without (hchars : chars.Ascii) {letter : Char} {line : List Char}
    (h : without letter line = true) {c : Char} (hc : c.toNat < 128) (hlower : c.toLower = letter) :
    ∀ d ∈ line, chars.toLower d ≠ chars.toLower c := by
  intro d hd
  have hletter := List.all_eq_true.mp h d hd
  simp only [Bool.and_eq_true, decide_eq_true_eq, bne_iff_ne] at hletter
  rw [hchars.lower d hletter.1, hchars.lower c hc, hlower]
  exact hletter.2

/-- A line without a `b` is none of a breakpoint. -/
theorem no_breakpoint (hchars : chars.Ascii) {line : List Char} (hline : without 'b' line = true) :
    (BreakpointRH.rAddress chars).search line = none ∧
      (BreakpointRH.rSymbol chars).search line = none := by
  have hb := toLower_without (c := 'B') hchars hline (by simp) rfl
  rw [BreakpointRH.rAddress, BreakpointRH.rSymbol]
  simp only [List.append_assoc]
  exact ⟨search_missing 'B' (by simp) hb, search_missing 'B' (by simp) hb⟩

/-- A line without a `p` is none of an exit or of a signal. -/
theorem no_program (hchars : chars.Ascii) {line : List Char} (hline : without 'p' line = true) :
    (ExitRH.normal chars).search line = none ∧ (ExitRH.withCode chars).search line = none ∧
      (SignalRH.r chars).search line = none := by
  have hp := toLower_without (c := 'P') hchars hline (by simp) rfl
  rw [ExitRH.normal, ExitRH.withCode, SignalRH.r]
  simp only [List.append_assoc]
  exact ⟨search_missing 'P' (by simp) hp, search_missing 'P' (by simp) hp,
    search_missing 'P' (by simp) hp⟩

/-- A line without a `b`, a `v`, and a `g` or an `h` is none of a stop. -/
theorem unclaimed_without (hchars : chars.Ascii) {line : List Char} (hb : without 'b' line = true)
    (hv : without 'v' line = true) (hgh : without 'g' line = true ∨ without 'h' line = true) :
    Unclaimed chars line := by
  obtain ⟨haddress, hsymbol⟩ := no_breakpoint hchars hb
  have hv := toLower_without (c := 'v') hchars hv (by simp) rfl
  obtain ⟨c, hnormal, hcode, hmissing⟩ : ∃ c ∈ "Program has exited normally".toList,
      c ∈ "Program exited with code ".toList ∧ ∀ d ∈ line, chars.toLower d ≠ chars.toLower c := by
    rcases hgh with hg | hh
    · exact ⟨'g', by simp, by simp, toLower_without hchars hg (by simp) rfl⟩
    · exact ⟨'h', by simp, by simp, toLower_without hchars hh (by simp) rfl⟩
  refine ⟨haddress, hsymbol, search_missing c hnormal hmissing, search_missing c hcode hmissing, ?_,
    search_missing 'v' (by simp) hv⟩
  rw [SignalRH.r]
  simp only [List.append_assoc]
  exact search_missing 'v' (by simp) hv

/-- `ExitRH` looks for another text. -/
theorem unclaimed_exitText (hchars : chars.Ascii) : Unclaimed chars exitText :=
  unclaimed_without hchars (by decide) (by decide) (.inr (by decide))

theorem unclaimed_inferiorExitText (hchars : chars.Ascii) (num pid : Nat) :
    Unclaimed chars (inferiorExitText num pid) :=
  unclaimed_without hchars (without_inferiorText rfl num pid (by decide) (by decide))
    (without_inferiorText rfl num pid (by decide) (by decide))
    (.inl (without_inferiorText rfl num pid (by decide) (by decide)))

/-- The code with which the program has exited, in octal digits. -/
structure ExitCode where
  digits : List Char
  code : Nat
  octal : parseDigits 8 digits = some code
  decimal : ∀ c ∈ digits, c.isDigit = true
  fits : code < 2 ^ 63

namespace ExitCode

variable (exit : ExitCode)

theorem ne_nil : exit.digits ≠ [] := by
  intro h
  have hoctal := exit.octal
  rw [h] at hoctal
  cases hoctal

theorem toInt64 : toInt64Octal exit.digits = .ok exit.code := by
  have hfits := exit.fits
  rw [toInt64Octal, exit.octal]
  dsimp only
  rw [if_pos (by omega), Int.bmod_eq_of_le (by omega) (by omega)]

end ExitCode

theorem search_exitCodeText (hchars : chars.Ascii) (exit : ExitCode) :
    (ExitRH.withCode chars).search (exitCodeText exit.digits) = some [exit.digits] ∧
      (ExitRH.normal chars).search (exitCodeText exit.digits) = none ∧
      (BreakpointRH.rAddress chars).search (exitCodeText exit.digits) = none ∧
      (BreakpointRH.rSymbol chars).search (exitCodeText exit.digits) = none := by
  have hwithout : ∀ letter : Char, letter.isLower = true →
      without letter "Program exited with code .".toList = true →
      without letter (exitCodeText exit.digits) = true := by
    intro letter hletter hfront
    have hsplit : "Program exited with code .".toList = "Program exited with code ".toList ++ ['.'] := by
      simp
    rw [hsplit, without_append] at hfront
    show without letter ("Program exited with code ".toList ++ (_ ++ _)) = true
    rw [without_append, without_append]
    exact ⟨hfront.1, without_digits hletter exit.decimal, hfront.2⟩
  have hdigits : ∀ c ∈ exit.digits, chars.isDigit c = true := by
    intro c hc
    have hascii : c.toNat < 128 := by
      have hdigit := exit.decimal c hc
      simp only [Char.isDigit, Bool.and_eq_true, decide_eq_true_eq] at hdigit
      exact lt_of_le_of_lt (show c.toNat ≤ 57 from hdigit.2) (by omega)
    rw [hchars.digit c hascii]
    exact exit.decimal c hc
  have hcode : Pattern.matchFront [digits chars] (exit.digits ++ ['.']) = some [exit.digits] :=
    Pattern.matchFront_plus_stop exit.ne_nil hdigits (hchars.digit _ (by decide)) rfl
  refine ⟨?_, ?_, no_breakpoint hchars (hwithout 'b' rfl (by decide))⟩
  · apply Pattern.search_of_matchFront
    exact (matchFront_text chars "Program exited with code " _ _).trans hcode
  · exact search_missing 'y' (by simp)
      (toLower_without hchars (hwithout 'y' rfl (by decide)) (by simp) rfl)

/-- The name of the program is missing. -/
theorem unclaimed_inferiorExitCodeText (hchars : chars.Ascii) (num pid : Nat) (exit : ExitCode) :
    Unclaimed chars (inferiorExitCodeText num pid exit.digits) := by
  have hwithout : ∀ letter : Char, letter.isLower = true →
      without letter "[Inferior  (process ) exited ]".toList = true →
      without letter "with code ".toList = true →
      without letter (inferiorExitCodeText num pid exit.digits) = true := by
    intro letter hletter hfront hcode
    refine without_inferiorText hletter num pid hfront ?_
    exact without_append.mpr ⟨hcode, without_digits hletter exit.decimal⟩
  exact unclaimed_without hchars (hwithout 'b' rfl (by decide) (by decide))
    (hwithout 'v' rfl (by decide) (by decide)) (.inl (hwithout 'g' rfl (by decide) (by decide)))

/-! ## Lines behind the announcement -/

/-- Where the program is, as gdb prints it. -/
def frameText (address : PrintedAddress) (place : List Char) : List Char :=
  "0x".toList ++ (address.digits ++ (" in ".toList ++ place))

theorem search_frameText (address : PrintedAddress) (place : List Char) :
    SignalRH.rAddress.search (frameText address place) = some [address.digits] := by
  have hplace : Pattern.matchFront (SignalRH.exactText "in" ++ [anything false])
      ("in".toList ++ ' ' :: place) = some [] := by
    have hsame : Pattern.matchFront (SignalRH.exactText "in" ++ [anything false])
        ("in".toList ++ ' ' :: place) = Pattern.matchFront [anything false] (' ' :: place) :=
      Pattern.matchFront_same (p := fun c d => d == c) (by simp) _ _
    rw [hsame]
    exact Pattern.matchFront_nil rfl (accepts_anything _)
  have hblank : Pattern.matchFront (spaces :: (SignalRH.exactText "in" ++ [anything false]))
      ([' '] ++ 'i' :: 'n' :: ' ' :: place) = some [] :=
    Pattern.matchFront_star_stop (by simp [isWhiteSpace, isWhite]) rfl hplace
  have hword : ∀ c ∈ address.digits, (!isWhiteSpace c) = true := by
    intro c hc
    rw [address.digit hc]
    rfl
  have haddress : Pattern.matchFront
      (word true :: spaces :: (SignalRH.exactText "in" ++ [anything false]))
      (address.digits ++ ' ' :: ("in ".toList ++ place)) = some [address.digits] :=
    Pattern.matchFront_star_stop hword rfl hblank
  apply Pattern.search_of_matchFront
  have hzero : Pattern.matchFront (SignalRH.exactText "0x" ++
      (word true :: spaces :: (SignalRH.exactText "in" ++ [anything false])))
      ("0x".toList ++ (address.digits ++ ' ' :: ("in ".toList ++ place))) = some [address.digits] :=
    (Pattern.matchFront_same (p := fun c d => d == c) (by simp) _ _).trans haddress
  exact hzero

/-- A line in which there is no address either. -/
structure Silent (chars : CharData) (line : List Char) : Prop extends Unclaimed chars line where
  address : SignalRH.rAddress.search line = none

theorem findAddress_silent {silent : List (List Char)} (h : ∀ line ∈ silent, Silent chars line)
    (following : List (List Char)) :
    SignalRH.findAddress (silent ++ following) = SignalRH.findAddress following := by
  induction silent with
  | nil => rfl
  | cons line silent ih =>
      rw [List.forall_mem_cons] at h
      rw [List.cons_append, SignalRH.findAddress, h.1.address]
      exact ih h.2

theorem findAddress_none {silent : List (List Char)} (h : ∀ line ∈ silent, Silent chars line) :
    SignalRH.findAddress silent = .ok none := by
  have hskip := findAddress_silent h []
  rw [List.append_nil] at hskip
  exact hskip

theorem findAddress_frame (address : PrintedAddress) (place : List Char) :
    SignalRH.findAddress [frameText address place] = .ok (some address.value) := by
  rw [SignalRH.findAddress, search_frameText]
  show Except.map some (uint64ParseHex address.digits) = _
  rw [address.parse]
  rfl

/-! ## Announcements that wait for an address -/

/-- The line is answered with a request for another one until there is an address or
the prompt, and then with the stop. -/
def Awaiting (chars : CharData) (breakpoints : Breakpoints) (line : List Char)
    (stop : Option UInt64 → GdbStop) : Prop :=
  ∀ ready lines found, (∀ other ∈ lines, Unclaimed chars other) →
    SignalRH.findAddress lines = .ok found →
    receivedNewLine chars breakpoints ready (line :: lines) =
      .ok (if found = none ∧ ready = false then (line :: lines, []) else ([], [stop found]))

theorem Awaiting.prompt {line : List Char} {stop : Option UInt64 → GdbStop}
    (h : Awaiting chars breakpoints line stop) {silent after : List (List Char)}
    (hsilent : ∀ other ∈ silent ++ after, Silent chars other) :
    receiveOutput chars breakpoints (line :: silent) after = .ok ([], [stop none]) := by
  induction after generalizing silent with
  | nil =>
      rw [List.append_nil] at hsilent
      rw [receiveOutput, h true silent none (fun other hother => (hsilent other hother).toUnclaimed)
        (findAddress_none hsilent)]
      rfl
  | cons other after ih =>
      have hall : ∀ next ∈ silent ++ [other] ++ after, Silent chars next := by
        simpa [or_assoc] using hsilent
      have hnow : ∀ next ∈ silent ++ [other], Silent chars next :=
        fun next hnext => hall next (List.mem_append_left _ hnext)
      rw [receiveOutput, List.cons_append, h false (silent ++ [other]) none
        (fun next hnext => (hnow next hnext).toUnclaimed) (findAddress_none hnow), ok_bind]
      simp only [and_self, if_true]
      rw [ih hall]
      rfl

theorem Awaiting.found {line : List Char} {stop : Option UInt64 → GdbStop}
    (h : Awaiting chars breakpoints line stop) {address : PrintedAddress} {place : List Char}
    (hframe : Unclaimed chars (frameText address place)) {after : List (List Char)}
    (hafter : ∀ other ∈ after, Unclaimed chars other) :
    receiveOutput chars breakpoints [line] (frameText address place :: after) =
      .ok ([], [stop (some address.value)]) := by
  rw [receiveOutput, List.singleton_append,
    h false _ _ (by simpa using hframe) (findAddress_frame address place), ok_bind]
  simp only [reduceCtorEq, false_and, if_false]
  rw [receiveOutput_all_unclaimed hafter]
  rfl

/-- The line in which gdb reports a signal. -/
def signalText (name friendly : List Char) : List Char :=
  "Program received signal ".toList ++ (name ++ ',' :: ' ' :: friendly)

/-- A signal that `SignalRH` knows; neither it nor its description looks like another
stop. -/
structure KnownSignal (chars : CharData) where
  name : List Char
  friendly : List Char
  word : ∀ c ∈ name, isWhiteSpace c = false
  known : (memberNamed signalEnum name).isSome = true
  rAddress : (BreakpointRH.rAddress chars).search (signalText name friendly) = none
  rSymbol : (BreakpointRH.rSymbol chars).search (signalText name friendly) = none
  normal : (ExitRH.normal chars).search (signalText name friendly) = none
  withCode : (ExitRH.withCode chars).search (signalText name friendly) = none

theorem KnownSignal.awaiting (hchars : chars.Ascii) (signal : KnownSignal chars) :
    Awaiting chars breakpoints (signalText signal.name signal.friendly) fun address =>
      ⟨.terminated, none, address.getD 0, SignalRH.signalStatus signal.name⟩ := by
  intro ready lines found hlines hfound
  have hcomma : chars.toLower ' ' ≠ chars.toLower ',' := by
    rw [hchars.lower ' ' (by simp), hchars.lower ',' (by simp)]
    simp
  have hsearch : (SignalRH.r chars).search (signalText signal.name signal.friendly) =
      some [signal.name] := SignalRH.search_signal hcomma signal.word signal.friendly
  have hparse : enumParse signalEnum signal.name = .ok (SignalRH.signalStatus signal.name) :=
    (SignalRH.enumParse_signal_iff signal.word).mpr (.inl signal.known)
  rw [receivedNewLine, permanentHandlings,
    breakpointRH_unclaimed (List.forall_mem_cons.mpr ⟨⟨signal.rAddress, signal.rSymbol⟩,
      fun other hother => ⟨(hlines other hother).rAddress, (hlines other hother).rSymbol⟩⟩),
    exitRH_unclaimed (List.forall_mem_cons.mpr ⟨⟨signal.normal, signal.withCode⟩,
      fun other hother => ⟨(hlines other hother).normal, (hlines other hother).withCode⟩⟩)]
  have hhandling : signalHandling chars (!ready)
      (signalText signal.name signal.friendly :: lines) =
      .ok (if found = none ∧ ready = false then (.requestLine, []) else
        (.handled, [⟨.terminated, none, found.getD 0, SignalRH.signalStatus signal.name⟩])) := by
    rw [signalHandling, SignalRH.handleResponse, hsearch]
    have hname : result [signal.name] 0 = signal.name := rfl
    dsimp only
    rw [hname, hparse, hfound, ok_bind]
    by_cases hempty : lines = []
    · subst hempty
      cases hfound
      cases ready <;> rfl
    · simp only [hempty, false_and, if_false]
      cases found <;> cases ready <;> rfl
  rw [hhandling]
  cases found <;> cases ready <;> rfl

/-- The line in which gdb says that the record has been gone back to its beginning. -/
def noHistoryText : List Char := "No more reverse-execution history.".toList

theorem noHistory_awaiting (hchars : chars.Ascii) :
    Awaiting chars breakpoints noHistoryText fun address =>
      ⟨.breakpoint, address.bind breakpoints.lookupBreakpointByAddress, address.getD 0, 0⟩ := by
  intro ready lines found hlines hfound
  obtain ⟨hnormal, hcode, hsignal⟩ :=
    no_program hchars (by decide : without 'p' noHistoryText = true)
  have hbreakpoint := no_breakpoint hchars (by decide : without 'b' noHistoryText = true)
  have hsearch : (RecordLogRH.r chars).search noHistoryText = some [] := by
    apply Pattern.search_of_matchFront
    apply Pattern.matchFront_nil
    · rw [RecordLogRH.r, Pattern.captures_append, captures_text]
      rfl
    · have hnothing : Pattern.Accepts [spaces] ([] ++ []) :=
        .star (fun c hc => absurd hc List.not_mem_nil) (.nil [])
      exact accepts_same "No more reverse-execution history" (.one rfl hnothing)
  rw [receivedNewLine, permanentHandlings,
    breakpointRH_unclaimed (List.forall_mem_cons.mpr ⟨hbreakpoint,
      fun other hother => ⟨(hlines other hother).rAddress, (hlines other hother).rSymbol⟩⟩),
    exitRH_unclaimed (List.forall_mem_cons.mpr ⟨⟨hnormal, hcode⟩,
      fun other hother => ⟨(hlines other hother).normal, (hlines other hother).withCode⟩⟩),
    signalRH_unclaimed (List.forall_mem_cons.mpr ⟨hsignal,
      fun other hother => (hlines other hother).signal⟩)]
  have hhandling : RecordLogRH.handleResponse chars breakpoints (!ready) (noHistoryText :: lines) =
      .ok (if found = none ∧ ready = false then (.requestLine, []) else
        (.handled, [⟨.breakpoint, found.bind breakpoints.lookupBreakpointByAddress,
          found.getD 0, 0⟩])) := by
    rw [RecordLogRH.handleResponse, hsearch]
    dsimp only
    rw [hfound, ok_bind]
    by_cases hempty : lines = []
    · subst hempty
      cases hfound
      cases ready <;> rfl
    · simp only [hempty, false_and, if_false]
      cases found <;> cases ready <;> rfl
  rw [hhandling]
  cases found <;> cases ready <;> rfl

end InMemoryFuzzing.Gdb

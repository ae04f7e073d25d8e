import InMemoryFuzzing.Gdb.RegexLogic
import InMemoryFuzzing.Gdb.SignalRH
import InMemoryFuzzing.Gdb.Theorems.Answers

/-!
# Signals are reported

The signal of the first line that has one is looked up among the members of `SignalEnum`. `Parse`
raises where the name is not among them, in front of the delegate, and so does the number of an
address line that is not hexadecimal (`signal_reported_iff`).
-/

namespace InMemoryFuzzing.Gdb

open Base Platform DotNet Regex

namespace SignalRH

/-! ## The lines -/

/-- The groups of the first line that matches, and the lines behind it. -/
def firstMatch (pattern : Pattern Char) :
    List (List Char) → Option (List (List Char) × List (List Char))
  | [] => none
  | line :: lines =>
      match pattern.search line with
      | some groups => some (groups, lines)
      | none => firstMatch pattern lines

theorem findAddress_eq (lines : List (List Char)) :
    findAddress lines = match firstMatch rAddress lines with
      | some (groups, _) => (uint64ParseHex (result groups 0)).map some
      | none => .ok none := by
  induction lines with
  | nil => rfl
  | cons line lines ih =>
      rw [findAddress, firstMatch]
      cases rAddress.search line with
      | some groups => rfl
      | none => exact ih

/-- Behind the prompt no line is requested. -/
theorem handleResponse_eq (chars : CharData) (lines : List (List Char)) :
    handleResponse chars false lines = match firstMatch (r chars) lines with
      | some (groups, following) => do
          let address ← findAddress following
          let eSignal ← enumParse signalEnum (result groups 0)
          return (.handled, [⟨.terminated, address.getD 0, eSignal⟩])
      | none => .ok (.notHandled, []) := by
  induction lines with
  | nil => rfl
  | cons line lines ih =>
      rw [handleResponse, firstMatch]
      cases (r chars).search line with
      | some groups => simp
      | none => exact ih

/-! ## The name of the signal -/

/-- The end of the pattern captures nothing. -/
theorem end_groups {back : List Char} {groups : List (List Char)}
    (h : Pattern.matchFront [spaces, anything false] back = some groups) : groups = [] := by
  obtain ⟨⟨_, others⟩, hspaces, rfl⟩ := Option.map_eq_some_iff.mp h
  obtain ⟨_, rfl, -, hanything⟩ := Pattern.greedy_some hspaces
  obtain ⟨⟨_, others'⟩, hend, rfl⟩ := Option.map_eq_some_iff.mp hanything
  obtain ⟨_, rfl, -, hnil⟩ := Pattern.greedy_some hend
  cases hnil
  rfl

/-- There is one group, and no white space in it. -/
theorem search_r {chars : CharData} {line : List Char} {groups : List (List Char)}
    (h : (r chars).search line = some groups) :
    ∃ name, groups = [name] ∧ ∀ c ∈ name, isWhiteSpace c = false := by
  obtain ⟨front, back, rfl, hmatch⟩ := Pattern.search_some h
  rw [r, List.append_assoc, List.append_assoc, text_eq] at hmatch
  obtain ⟨-, behind, rfl, hname⟩ := Pattern.matchFront_ones hmatch
  obtain ⟨⟨name, others⟩, hgreedy, rfl⟩ := Option.map_eq_some_iff.mp hname
  obtain ⟨rest, rfl, hwhite, hrest⟩ := Pattern.greedy_some hgreedy
  rw [text_eq] at hrest
  obtain ⟨-, _, rfl, hlast⟩ := Pattern.matchFront_ones hrest
  cases end_groups hlast
  exact ⟨name, rfl, by simpa using hwhite⟩

/-- The line in which gdb reports a signal. -/
theorem search_signal {chars : CharData} (hcomma : chars.toLower ' ' ≠ chars.toLower ',')
    {name : List Char} (hname : ∀ c ∈ name, isWhiteSpace c = false) (friendly : List Char) :
    (r chars).search ("Program received signal ".toList ++ (name ++ ',' :: ' ' :: friendly)) =
      some [name] := by
  have hend : Pattern.matchFront (text chars "," ++ [spaces, anything false])
      (',' :: ' ' :: friendly) = some [] := by
    have hfront := matchFront_text chars "," [spaces, anything false] (' ' :: friendly)
    refine Eq.trans hfront ?_
    have hnothing : ∀ p : Char → Bool, ∀ c ∈ ([] : List Char), p c = true := nofun
    have haccepts : Pattern.Accepts [spaces, anything false] ([] ++ ([] ++ ' ' :: friendly)) :=
      .star (hnothing _) (.star (hnothing _) (.nil _))
    obtain ⟨groups, hgroups⟩ :=
      Option.isSome_iff_exists.mp ((Pattern.matchFront_isSome _ _).mpr haccepts)
    rw [List.nil_append, List.nil_append] at hgroups
    rw [hgroups, end_groups hgroups]
  -- behind the comma there is no other one before the next space
  have hblank : Pattern.greedy (fun c => !isWhiteSpace c)
      (Pattern.matchFront (text chars "," ++ [spaces, anything false])) (' ' :: friendly) = none := by
    have hother : Pattern.matchFront (text chars "," ++ [spaces, anything false])
        (' ' :: friendly) = none := by
      show (if (chars.toLower ' ' == chars.toLower ',') = true then _ else none) = none
      rw [if_neg (by simpa using hcomma)]
    rw [Pattern.greedy, if_neg (by decide), hother]
    rfl
  apply Pattern.search_of_matchFront
  rw [r, List.append_assoc, List.append_assoc, matchFront_text]
  have hgreedy := Pattern.greedy_run (by simpa using hname) hend hblank
  exact congrArg (Option.map (Pattern.group true)) hgreedy

theorem firstMatch_r {chars : CharData} {lines following : List (List Char)}
    {groups : List (List Char)} (h : firstMatch (r chars) lines = some (groups, following)) :
    ∃ name, groups = [name] ∧ ∀ c ∈ name, isWhiteSpace c = false := by
  induction lines with
  | nil => cases h
  | cons line lines ih =>
      rw [firstMatch] at h
      split at h
      · rename_i hsearch
        cases h
        exact search_r hsearch
      · exact ih h

/-! ## What is handed on -/

/-- The number of the signal, or that of `UNKNOWN`. -/
def signalStatus (name : List Char) : Int := ((memberNamed signalEnum name).getD 0 : Nat)

/-- The address of the first address line, or 0 without one. -/
def AddressOf (following : List (List Char)) (address : UInt64) : Prop :=
  match firstMatch rAddress following with
  | some (groups, _) => uint64TryParseHex (result groups 0) = some address
  | none => address = 0

/-- What there is at the place of an address is one. -/
def Readable (following : List (List Char)) : Prop :=
  ∀ groups behind, firstMatch rAddress following = some (groups, behind) →
    (uint64TryParseHex (result groups 0)).isSome = true

/-- The delegate is invoked once, with the signal and the address, and nothing is raised. -/
def SignalReported (chars : CharData) (responseLines : List (List Char)) : Prop :=
  ∀ name following, firstMatch (r chars) responseLines = some ([name], following) →
    ∃ address, AddressOf following address ∧ handleResponse chars false responseLines =
      .ok (.handled, [⟨.terminated, address, signalStatus name⟩])

theorem uint64ParseHex_ok_iff {text : List Char} {n : UInt64} :
    uint64ParseHex text = .ok n ↔ uint64TryParseHex text = some n := by
  unfold uint64ParseHex
  cases uint64TryParseHex text <;> simp

/-- The address is found if and only if it can be read. -/
theorem findAddress_iff {following : List (List Char)} :
    (∃ address, AddressOf following address ∧
      ∃ found, findAddress following = .ok found ∧ found.getD 0 = address) ↔
      Readable following := by
  rw [findAddress_eq]
  unfold AddressOf Readable
  cases hfirst : firstMatch rAddress following with
  | none => simp
  | some first =>
      obtain ⟨groups, behind⟩ := first
      cases hparse : uint64TryParseHex (result groups 0) with
      | none => simp [hparse]
      | some n =>
          have hok := uint64ParseHex_ok_iff.mpr hparse
          simp [hparse, hok, Except.map]

theorem enumParse_signal_iff {name : List Char} (hname : ∀ c ∈ name, isWhiteSpace c = false) :
    enumParse signalEnum name = .ok (signalStatus name) ↔
      (memberNamed signalEnum name).isSome = true ∨ StandsForZero signalEnum name :=
  enumParse_getD_iff rfl (trim_of_none hname)

/-- If and only if the signal is named in `SignalEnum`, or stands for 0 nevertheless, and the
address can be read. -/
theorem signal_reported_iff (chars : CharData) (responseLines : List (List Char)) :
    SignalReported chars responseLines ↔
      ∀ name following, firstMatch (r chars) responseLines = some ([name], following) →
        ((memberNamed signalEnum name).isSome = true ∨ StandsForZero signalEnum name) ∧
        Readable following := by
  refine forall_congr' fun name => forall_congr' fun following => imp_congr_right fun hfirst => ?_
  obtain ⟨_, heq, hname⟩ := firstMatch_r hfirst
  cases heq
  rw [← enumParse_signal_iff hname, ← findAddress_iff, handleResponse_eq, hfirst]
  have hgroup : result [name] 0 = name := rfl
  dsimp only
  rw [hgroup]
  constructor
  · rintro ⟨address, haddress, h⟩
    obtain ⟨found, hfound, h⟩ := bind_ok.mp h
    obtain ⟨eSignal, hsignal, h⟩ := bind_ok.mp h
    simp only [pure, Except.pure, Except.ok.injEq, Prod.mk.injEq, List.cons.injEq, Stop.mk.injEq,
      true_and, and_true] at h
    obtain ⟨hfoundAddress, rfl⟩ := h
    exact ⟨hsignal, address, haddress, found, hfound, hfoundAddress⟩
  · rintro ⟨hsignal, address, haddress, found, hfound, rfl⟩
    refine ⟨_, haddress, ?_⟩
    rw [hfound, ok_bind, hsignal, ok_bind]
    rfl

/-- A system call that is not known; `SIGSYS` is not in the enumeration. -/
theorem sigsys_not_reported :
    let responseLines := ["Program received signal SIGSYS, Bad system call.".toList,
      "0xb7fe2424 in __kernel_vsyscall ()".toList]
    (∀ answer, handleResponse asciiData false responseLines ≠ .ok answer) ∧
      ¬SignalReported asciiData responseLines := by
  intro responseLines
  have hraise : handleResponse asciiData false responseLines =
      .error (.argument "Requested value 'SIGSYS' was not found.") := rfl
  have hfirst : firstMatch (r asciiData) responseLines =
      some (["SIGSYS".toList], ["0xb7fe2424 in __kernel_vsyscall ()".toList]) := rfl
  refine ⟨fun answer h => by simp [hraise] at h, fun h => ?_⟩
  obtain ⟨address, -, hresponse⟩ := h _ _ hfirst
  rw [hraise] at hresponse
  cases hresponse

end SignalRH

end InMemoryFuzzing.Gdb

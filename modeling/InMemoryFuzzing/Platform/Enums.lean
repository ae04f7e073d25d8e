import InMemoryFuzzing.Platform.DotNet

/-!
# `Enum.Parse`

An enumeration over `int` is the list of its members, none of which is negative. A text is parsed
that names a member, or several between commas, or is a number; anything else raises.
-/

namespace InMemoryFuzzing.Platform.DotNet

/-- The number of the member with this name, in upper or lower case. -/
def memberNamed (members : List (String × Nat)) (name : List Char) : Option Nat :=
  (members.find? fun m => toLower m.1.toList = toLower name).map Prod.snd

/-- The members of a list are joined bit by bit. -/
def memberList (members : List (String × Nat)) : List (List Char) → Option Nat
  | [] => some 0
  | part :: parts =>
      match memberNamed members (trim part), memberList members parts with
      | some n, some rest => some (n ||| rest)
      | _, _ => none

/-- `Enum.Parse (enumType, value, true)`. -/
def enumParse (members : List (String × Nat)) (value : List Char) : Except NetException Int :=
  let value := trim value
  let notFound := NetException.argument s!"Requested value '{String.ofList value}' was not found."
  if value = [] then
    .error (.argument "Must specify valid information for parsing in the string.")
  else
    match memberNamed members value with
    | some n => .ok n
    | none =>
        if ',' ∈ value then
          match memberList members (value.splitOn ',') with
          | some n => .ok n
          | none => .error notFound
        else
          match parseInteger value with
          | some v => if -2 ^ 31 ≤ v ∧ v < 2 ^ 31 then .ok v else .error .overflow
          | none => .error notFound

/-- The text is no name of a member, and stands for 0 nevertheless: a list of names of 0, or the
number 0. -/
def StandsForZero (members : List (String × Nat)) (value : List Char) : Prop :=
  (',' ∈ value ∧ ∀ part ∈ value.splitOn ',', memberNamed members (trim part) = some 0) ∨
  (',' ∉ value ∧ parseInteger value = some 0)

theorem memberList_zero_iff {members : List (String × Nat)} {parts : List (List Char)} :
    memberList members parts = some 0 ↔
      ∀ part ∈ parts, memberNamed members (trim part) = some 0 := by
  induction parts with
  | nil => simp [memberList]
  | cons part parts ih =>
      rw [List.forall_mem_cons, ← ih, memberList]
      cases hpart : memberNamed members (trim part) with
      | none => simp
      | some n =>
          cases hparts : memberList members parts with
          | none => simp
          | some rest => simp [Nat.or_eq_zero_iff]

/-- A text without white space around it gives the number of the member, or else 0, if and only if
it names one or stands for 0. -/
theorem enumParse_getD_iff {members : List (String × Nat)} (hempty : memberNamed members [] = none)
    {value : List Char} (htrim : trim value = value) :
    enumParse members value = .ok ((memberNamed members value).getD 0 : Nat) ↔
      (memberNamed members value).isSome = true ∨ StandsForZero members value := by
  have hnil : ¬StandsForZero members [] := by
    rintro (⟨hmem, -⟩ | ⟨-, hzero⟩)
    · exact absurd hmem List.not_mem_nil
    · cases hzero
  unfold enumParse
  dsimp only
  rw [htrim]
  by_cases hvalue : value = []
  · rw [if_pos hvalue, hvalue, hempty]
    simp [hnil]
  · rw [if_neg hvalue]
    cases memberNamed members value with
    | some n => simp
    | none =>
        by_cases hcomma : ',' ∈ value
        · rw [if_pos hcomma]
          have hzero : StandsForZero members value ↔
              memberList members (value.splitOn ',') = some 0 := by
            rw [memberList_zero_iff]
            simp [StandsForZero, hcomma]
          rw [hzero]
          cases memberList members (value.splitOn ',') with
          | none => simp
          | some n => simp
        · rw [if_neg hcomma]
          have hzero : StandsForZero members value ↔ parseInteger value = some 0 := by
            simp [StandsForZero, hcomma]
          rw [hzero]
          cases parseInteger value with
          | none => simp
          | some v =>
              dsimp only
              split
              · simp
              · rename_i hrange
                simp only [Option.getD_none, Option.isSome_none, Option.some.injEq]
                constructor
                · intro h
                  cases h
                · rintro (h | rfl)
                  · cases h
                  · exact absurd (by norm_num) hrange

end InMemoryFuzzing.Platform.DotNet

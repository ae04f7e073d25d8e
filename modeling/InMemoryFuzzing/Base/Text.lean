import Mathlib.Data.Nat.Notation
import Mathlib.Tactic.IntervalCases

/-!
# Numbers in text, and cutting text apart

Printing a number is `Nat.toDigits`; `parseDigits` reads it back. `cutAt` splits a
text at the first occurrence of a character, `behind` finds the text behind the
first occurrence of a word.
-/

namespace InMemoryFuzzing.Base

/-! ## Digits -/

/-- The value of a digit, in any base up to 16. -/
def digitValue (c : Char) : Option Nat :=
  if 48 ≤ c.toNat ∧ c.toNat ≤ 57 then some (c.toNat - 48)
  else if 97 ≤ c.toNat ∧ c.toNat ≤ 102 then some (c.toNat - 87)
  else if 65 ≤ c.toNat ∧ c.toNat ≤ 70 then some (c.toNat - 55)
  else none

/-- One more digit behind a number. -/
def pushDigit (base acc : Nat) (c : Char) : Option Nat := do
  let d ← digitValue c
  if d < base then some (acc * base + d) else none

/-- The value of a non-empty text of digits. -/
def parseDigits (base : Nat) : List Char → Option Nat
  | [] => none
  | c :: rest => (c :: rest).foldlM (pushDigit base) 0

theorem range_of_digit {c : Char} (h : (digitValue c).isSome = true) :
    48 ≤ c.toNat ∧ c.toNat ≤ 57 ∨ 97 ≤ c.toNat ∧ c.toNat ≤ 102 ∨ 65 ≤ c.toNat ∧ c.toNat ≤ 70 := by
  rw [digitValue] at h
  split at h
  · omega
  · split at h
    · omega
    · split at h
      · omega
      · cases h

theorem digitValue_digitChar {d : Nat} (h : d < 16) : digitValue d.digitChar = some d := by
  interval_cases d <;> rfl

theorem pushDigit_digitChar {base acc d : Nat} (hbase : base ≤ 16) (h : d < base) :
    pushDigit base acc d.digitChar = some (acc * base + d) := by
  rw [pushDigit, digitValue_digitChar (by omega)]
  exact if_pos h

theorem foldlM_toDigits {base : Nat} (hbase : 1 < base) (hle : base ≤ 16) (n : Nat) :
    (Nat.toDigits base n).foldlM (pushDigit base) 0 = some n := by
  induction n using Nat.strongRecOn with
  | ind n ih =>
      by_cases hlt : n < base
      · rw [Nat.toDigits_of_lt_base hlt, List.foldlM_cons, pushDigit_digitChar hle hlt, Nat.zero_mul,
          Nat.zero_add]
        rfl
      · have hge : base ≤ n := Nat.le_of_not_lt hlt
        have hdiv : n / base < n := Nat.div_lt_self (by omega) hbase
        rw [Nat.toDigits_of_base_le hbase hge, List.foldlM_append, ih _ hdiv]
        show [(n % base).digitChar].foldlM (pushDigit base) (n / base) = some n
        rw [List.foldlM_cons, pushDigit_digitChar hle (Nat.mod_lt n (by omega)), Nat.mul_comm,
          Nat.div_add_mod]
        rfl

/-- A printed number is read back. -/
theorem parseDigits_toDigits {base : Nat} (hbase : 1 < base) (hle : base ≤ 16) (n : Nat) :
    parseDigits base (Nat.toDigits base n) = some n := by
  have h := foldlM_toDigits hbase hle n
  cases hdigits : Nat.toDigits base n with
  | nil => exact absurd hdigits Nat.toDigits_ne_nil
  | cons c rest =>
      rw [hdigits] at h
      exact h

/-- A text that is a number is made of digits. -/
theorem isSome_digitValue_of_parseDigits {base n : Nat} {text : List Char}
    (h : parseDigits base text = some n) : ∀ c ∈ text, (digitValue c).isSome = true := by
  have hfold : ∀ (text : List Char) (acc : Nat), text.foldlM (pushDigit base) acc = some n →
      ∀ c ∈ text, (digitValue c).isSome = true := by
    intro text
    induction text with
    | nil =>
        intro _ _ c hc
        cases hc
    | cons d rest ih =>
        intro acc hrun
        rw [List.foldlM_cons] at hrun
        obtain ⟨next, hpush, hrest⟩ := Option.bind_eq_some_iff.mp hrun
        obtain ⟨value, hvalue, -⟩ := Option.bind_eq_some_iff.mp hpush
        rw [List.forall_mem_cons]
        exact ⟨by rw [hvalue]; rfl, ih next hrest⟩
  cases text with
  | nil => cases h
  | cons c rest => exact hfold (c :: rest) 0 h

/-- What is printed of a number are digits. -/
theorem mem_toDigits {base n : Nat} (hbase : 1 < base) {c : Char} (h : c ∈ Nat.toDigits base n) :
    ∃ d < base, c = d.digitChar := by
  induction n using Nat.strongRecOn with
  | ind n ih =>
      by_cases hlt : n < base
      · rw [Nat.toDigits_of_lt_base hlt, List.mem_singleton] at h
        exact ⟨n, hlt, h⟩
      · rw [Nat.toDigits_of_base_le hbase (Nat.le_of_not_lt hlt), List.mem_append,
          List.mem_singleton] at h
        rcases h with h | h
        · exact ih _ (Nat.div_lt_self (by omega) hbase) h
        · exact ⟨_, Nat.mod_lt n (by omega), h⟩

/-- A character that is no digit of the base is not printed. -/
theorem not_mem_toDigits {base n : Nat} (hbase : 1 < base) (hle : base ≤ 16) {c : Char}
    (hc : (digitValue c).all (base ≤ ·) = true) : c ∉ Nat.toDigits base n := by
  intro h
  obtain ⟨d, hd, rfl⟩ := mem_toDigits hbase h
  rw [digitValue_digitChar (by omega)] at hc
  exact absurd (of_decide_eq_true hc) (by omega)

/-! ## Texts with something between them -/

theorem intercalate_cons {α : Type} (sep first : List α) (rest : List (List α)) :
    sep.intercalate (first :: rest) = first ++ rest.flatMap fun text => sep ++ text := by
  induction rest generalizing first with
  | nil => simp
  | cons next rest ih =>
      rw [List.intercalate_cons_cons, ih, List.flatMap_cons, List.append_assoc, List.append_assoc]

/-! ## Cutting -/

section Cutting

variable {α : Type} [DecidableEq α]

/-- The text before and behind the first `sep`. -/
def cutAt (sep : α) : List α → Option (List α × List α)
  | [] => none
  | c :: rest =>
      if c = sep then some ([], rest)
      else (cutAt sep rest).map fun (front, back) => (c :: front, back)

/-- The text behind the first occurrence of `word`. -/
def behind (word : List α) : List α → Option (List α)
  | [] => if word = [] then some [] else none
  | c :: rest =>
      if word.isPrefixOf (c :: rest) then some ((c :: rest).drop word.length) else behind word rest

theorem cutAt_append {sep : α} {front : List α} (h : sep ∉ front) (back : List α) :
    cutAt sep (front ++ sep :: back) = some (front, back) := by
  induction front with
  | nil => exact if_pos rfl
  | cons c front ih =>
      rw [List.mem_cons, not_or] at h
      show (if c = sep then _ else (cutAt sep (front ++ sep :: back)).map _) = _
      rw [if_neg (Ne.symm h.1), ih h.2]
      rfl

theorem cutAt_eq_some_iff {sep : α} {text front back : List α} :
    cutAt sep text = some (front, back) ↔ text = front ++ sep :: back ∧ sep ∉ front := by
  constructor
  · intro h
    induction text generalizing front with
    | nil => cases h
    | cons c text ih =>
        rw [cutAt] at h
        split at h
        · rename_i hc
          cases h
          exact ⟨by rw [hc]; rfl, List.not_mem_nil⟩
        · rename_i hc
          obtain ⟨⟨front', back'⟩, hcut, hpair⟩ := Option.map_eq_some_iff.mp h
          cases hpair
          obtain ⟨rfl, hnot⟩ := ih hcut
          refine ⟨rfl, ?_⟩
          rw [List.mem_cons, not_or]
          exact ⟨Ne.symm hc, hnot⟩
  · rintro ⟨rfl, hnot⟩
    exact cutAt_append hnot back

theorem cutAt_eq_none_iff {sep : α} {text : List α} : cutAt sep text = none ↔ sep ∉ text := by
  induction text with
  | nil => simp [cutAt]
  | cons c text ih =>
      rw [cutAt, List.mem_cons, not_or]
      split
      · rename_i hc
        simp [hc]
      · rename_i hc
        rw [Option.map_eq_none_iff, ih]
        exact (and_iff_right (Ne.symm hc)).symm

/-- `word` stands behind `front`, and begins nowhere in front of that. -/
def FirstAt (word : List α) (text front back : List α) : Prop :=
  text = front ++ (word ++ back) ∧
    ∀ front' back', text = front' ++ (word ++ back') → front.length ≤ front'.length

theorem behind_eq_some_iff {word text back : List α} :
    behind word text = some back ↔ ∃ front, FirstAt word text front back := by
  induction text with
  | nil =>
      rw [behind]
      constructor
      · intro h
        split at h
        · rename_i hword
          cases h
          exact ⟨[], by rw [hword]; rfl, fun _ _ _ => Nat.zero_le _⟩
        · cases h
      · rintro ⟨front, htext, -⟩
        obtain ⟨-, hrest⟩ := List.nil_eq_append_iff.mp htext
        obtain ⟨rfl, rfl⟩ := List.append_eq_nil_iff.mp hrest
        rfl
  | cons c text ih =>
      rw [behind]
      by_cases hfront : word <+: c :: text
      · rw [if_pos (List.isPrefixOf_iff_prefix.mpr hfront)]
        obtain ⟨rest, hrest⟩ := hfront
        rw [← hrest, List.drop_left, Option.some.injEq]
        constructor
        · rintro rfl
          exact ⟨[], rfl, fun _ _ _ => Nat.zero_le _⟩
        · rintro ⟨front, htext, hfirst⟩
          have hnil : front = [] := List.eq_nil_of_length_eq_zero
            (Nat.le_zero.mp (hfirst [] rest rfl))
          rw [hnil] at htext
          exact List.append_cancel_left htext
      · rw [if_neg (mt List.isPrefixOf_iff_prefix.mp hfront), ih]
        have hlater : ∀ front back', c :: text = front ++ (word ++ back') →
            ∃ front', front = c :: front' ∧ text = front' ++ (word ++ back') := by
          intro front back' htext
          cases front with
          | nil => exact absurd ⟨back', htext.symm⟩ hfront
          | cons d front' =>
              cases htext
              exact ⟨front', rfl, rfl⟩
        constructor
        · rintro ⟨front, rfl, hfirst⟩
          refine ⟨c :: front, rfl, fun front' back' htext => ?_⟩
          obtain ⟨front'', rfl, hrest⟩ := hlater front' back' htext
          exact Nat.succ_le_succ (hfirst front'' back' hrest)
        · rintro ⟨front, htext, hfirst⟩
          obtain ⟨front', rfl, hrest⟩ := hlater front back htext
          refine ⟨front', hrest, fun front'' back' htext' => ?_⟩
          exact Nat.le_of_succ_le_succ (hfirst (c :: front'') back' (by rw [htext']; rfl))

theorem behind_eq_none_iff {word text : List α} : behind word text = none ↔ ¬word <:+: text := by
  induction text with
  | nil => simp [behind]
  | cons c text ih =>
      rw [behind, List.infix_cons_iff, not_or]
      by_cases hfront : word <+: c :: text
      · simp [hfront]
      · simp [hfront, ih]

/-- A stretch without the first letter of the word is skipped. -/
theorem behind_skip_head {w : α} {word : List α} {seg : List α} (hseg : w ∉ seg) (rest : List α) :
    behind (w :: word) (seg ++ rest) = behind (w :: word) rest := by
  induction seg with
  | nil => rfl
  | cons c seg ih =>
      rw [List.mem_cons, not_or] at hseg
      have hnext : (w :: word).isPrefixOf (c :: (seg ++ rest)) = false := by
        simp [List.isPrefixOf, hseg.1]
      show (if (w :: word).isPrefixOf (c :: (seg ++ rest)) = true then _
        else behind (w :: word) (seg ++ rest)) = _
      rw [hnext, if_neg Bool.false_ne_true, ih hseg.2]

/-- A stretch without the second letter of the word is skipped, if the letter
behind it is another one, too. -/
theorem behind_skip {w₁ w₂ : α} {word : List α} {seg : List α} {r : α} {rest : List α}
    (hseg : w₂ ∉ seg) (hr : r ≠ w₂) :
    behind (w₁ :: w₂ :: word) (seg ++ r :: rest) = behind (w₁ :: w₂ :: word) (r :: rest) := by
  induction seg with
  | nil => rfl
  | cons c seg ih =>
      rw [List.mem_cons, not_or] at hseg
      have hnext : ((w₁ :: w₂ :: word).isPrefixOf (c :: (seg ++ r :: rest))) = false := by
        cases seg with
        | nil => simp [List.isPrefixOf, Ne.symm hr]
        | cons d seg =>
            rw [List.mem_cons, not_or] at hseg
            simp [List.isPrefixOf, hseg.2.1]
      show (if (w₁ :: w₂ :: word).isPrefixOf (c :: (seg ++ r :: rest)) = true then _
        else behind (w₁ :: w₂ :: word) (seg ++ r :: rest)) = _
      rw [hnext, if_neg Bool.false_ne_true, ih hseg.2]

end Cutting

end InMemoryFuzzing.Base

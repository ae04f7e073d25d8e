import InMemoryFuzzing.Utils.SimpleFormatter

/-!
# One round of `Format`

What the searches find, and from it what `Unescape` keeps (`unescape_eq_self_iff`) and the three
kinds of rounds: no packet is left (`formatRound_last`), a packet is replaced
(`formatRound_packet`), and a packet that is not closed (`formatRound_unclosed`).
-/

namespace InMemoryFuzzing.Utils.SimpleFormatter

open Base Platform DotNet

variable {ε : Type}

/-! ## Searching -/

/-- The character stands at an index, and no backslash in front of it. -/
def NotEscapedAt (s : List Char) (c : Char) (i : Nat) : Prop :=
  s[i]? = some c ∧ (i = 0 ∨ s[i - 1]? ≠ some '\\')

instance (s : List Char) (c : Char) (i : Nat) : Decidable (NotEscapedAt s c i) :=
  inferInstanceAs (Decidable (_ ∧ _))

theorem NotEscapedAt.lt {s : List Char} {c : Char} {i : Nat} (h : NotEscapedAt s c i) :
    i < s.length :=
  (List.getElem?_eq_some_iff.mp h.1).1

theorem indexOf_some {findIn : List Char} {toFind : Char} {offset index : Nat}
    (h : (indexOf findIn toFind offset : Except (Raised ε) _) = .ok (some index)) :
    findIn[index]? = some toFind ∧ ∀ j, offset ≤ j → j < index → findIn[j]? ≠ some toFind := by
  rw [indexOf] at h
  split at h
  · cases h
  · obtain ⟨i, hfound, rfl⟩ := Option.map_eq_some_iff.mp (Except.ok.inj h)
    obtain ⟨hlt, hhere, hbefore⟩ := List.findIdx?_eq_some_iff_getElem.mp hfound
    rw [beq_iff_eq, List.getElem_drop] at hhere
    refine ⟨?_, ?_⟩
    · rw [List.getElem?_eq_getElem (by rw [List.length_drop] at hlt; omega), hhere]
    · intro j hj hless hjc
      obtain ⟨hjlt, hjc⟩ := List.getElem?_eq_some_iff.mp hjc
      apply hbefore (j - offset) (by omega)
      simp only [List.getElem_drop, Nat.add_sub_cancel' hj, hjc, beq_self_eq_true]

theorem indexOf_none {findIn : List Char} {toFind : Char} {offset : Nat}
    (h : (indexOf findIn toFind offset : Except (Raised ε) _) = .ok none) :
    ∀ j, offset ≤ j → findIn[j]? ≠ some toFind := by
  intro j hj hjc
  rw [indexOf] at h
  split at h
  · cases h
  · have hnone := List.findIdx?_eq_none_iff.mp (Option.map_eq_none_iff.mp (Except.ok.inj h))
    obtain ⟨hjlt, hjc⟩ := List.getElem?_eq_some_iff.mp hjc
    have hmem : toFind ∈ findIn.drop offset := by
      rw [List.mem_drop_iff_getElem]
      exact ⟨j - offset, by omega, by simp only [Nat.add_sub_cancel' hj, hjc]⟩
    have hfalse := hnone toFind hmem
    simp at hfalse

/-- The first such character. -/
theorem findNextNotEscaped_some {offset : Nat} {findIn : List Char} {toFind : Char} {index : Nat}
    (h : (findNextNotEscaped offset findIn toFind : Except (Raised ε) _) = .ok (some index)) :
    NotEscapedAt findIn toFind index ∧
      ∀ j, offset ≤ j → j < index → ¬NotEscapedAt findIn toFind j := by
  fun_induction findNextNotEscaped (ε := ε) offset findIn toFind with
  | case1 => cases h
  | case2 => cases h
  | case3 offset hindex =>
      cases h
      obtain ⟨hhere, hbefore⟩ := indexOf_some hindex
      exact ⟨⟨hhere, .inl rfl⟩, fun j hj hless hat_ => hbefore j hj hless hat_.1⟩
  | case4 offset found hindex hpos hprevious =>
      cases h
      obtain ⟨hhere, hbefore⟩ := indexOf_some hindex
      exact ⟨⟨hhere, .inr hprevious⟩, fun j hj hless hat_ => hbefore j hj hless hat_.1⟩
  | case5 offset found hindex hpos hprevious ih =>
      obtain ⟨hhere, hbefore⟩ := indexOf_some hindex
      obtain ⟨hfound, hless⟩ := ih h
      refine ⟨hfound, fun j hj hlt hat_ => ?_⟩
      -- in front of the escaped one there is none, and behind it the search goes on
      rcases Nat.lt_trichotomy j found with hj' | rfl | hj'
      · exact hbefore j hj hj' hat_.1
      · exact hat_.2.elim hpos fun hne => hprevious hne
      · exact hless j hj' hlt hat_

theorem findNextNotEscaped_none {offset : Nat} {findIn : List Char} {toFind : Char}
    (h : (findNextNotEscaped offset findIn toFind : Except (Raised ε) _) = .ok none) :
    ∀ j, offset ≤ j → ¬NotEscapedAt findIn toFind j := by
  fun_induction findNextNotEscaped (ε := ε) offset findIn toFind with
  | case1 => cases h
  | case2 offset hindex => exact fun j hj hat_ => indexOf_none hindex j hj hat_.1
  | case3 => cases h
  | case4 => cases h
  | case5 offset found hindex hpos hprevious ih =>
      intro j hj hat_
      rcases Nat.lt_trichotomy j found with hj' | rfl | hj'
      · exact (indexOf_some hindex).2 j hj hj' hat_.1
      · exact hat_.2.elim hpos fun hne => hprevious hne
      · exact ih h j hj' hat_

/-- The search raises where the offset is behind the end. -/
theorem findNextNotEscaped_raises {offset : Nat} {findIn : List Char} {toFind : Char}
    (h : findIn.length < offset) :
    (findNextNotEscaped offset findIn toFind : Except (Raised ε) _) = .error .outOfRange := by
  rw [findNextNotEscaped, indexOf, if_pos h]

theorem findNextNotEscaped_ok {offset : Nat} {findIn : List Char} (h : offset ≤ findIn.length)
    (toFind : Char) :
    ∃ found, (findNextNotEscaped offset findIn toFind : Except (Raised ε) _) = .ok found := by
  fun_induction findNextNotEscaped (ε := ε) offset findIn toFind with
  | case1 offset e hindex =>
      rw [indexOf, if_neg (by omega)] at hindex
      cases hindex
  | case2 => exact ⟨_, rfl⟩
  | case3 => exact ⟨_, rfl⟩
  | case4 => exact ⟨_, rfl⟩
  | case5 offset found hindex hpos hprevious ih =>
      have hbounds := indexOf_bounds hindex
      exact ih (by omega)

theorem findNextNotEscaped_eq_some {offset : Nat} {findIn : List Char} {toFind : Char} {index : Nat}
    (hat_ : NotEscapedAt findIn toFind index) (hle : offset ≤ index)
    (hbefore : ∀ j, offset ≤ j → j < index → ¬NotEscapedAt findIn toFind j) :
    (findNextNotEscaped offset findIn toFind : Except (Raised ε) _) = .ok (some index) := by
  have hlt := hat_.lt
  obtain ⟨found, hfound⟩ := findNextNotEscaped_ok (ε := ε) (by omega : offset ≤ findIn.length) toFind
  cases found with
  | none => exact absurd hat_ (findNextNotEscaped_none hfound index hle)
  | some other =>
      obtain ⟨hother, hfirst⟩ := findNextNotEscaped_some hfound
      have hbounds := findNextNotEscaped_bounds hfound
      rcases Nat.lt_trichotomy other index with h | rfl | h
      · exact absurd hother (hbefore other hbounds.1 h)
      · exact hfound
      · exact absurd hat_ (hfirst index hle h)

theorem findNextNotEscaped_eq_none {offset : Nat} {findIn : List Char} {toFind : Char}
    (hle : offset ≤ findIn.length) (h : ∀ j, offset ≤ j → ¬NotEscapedAt findIn toFind j) :
    (findNextNotEscaped offset findIn toFind : Except (Raised ε) _) = .ok none := by
  obtain ⟨found, hfound⟩ := findNextNotEscaped_ok (ε := ε) hle toFind
  cases found with
  | none => exact hfound
  | some index =>
      exact absurd (findNextNotEscaped_some hfound).1
        (h index (findNextNotEscaped_bounds hfound).1)

/-! ## Cutting -/

theorem substring_eq {s : List Char} {a b : Nat} (hab : a ≤ b) (hb : b ≤ s.length) :
    (substring s a ((b : Int) - a) : Except (Raised ε) _) = .ok ((s.drop a).take (b - a)) := by
  rw [substring, if_neg (by omega)]
  have hlength : ((b : Int) - a).toNat = b - a := by omega
  rw [hlength, Int.toNat_natCast]

theorem substring_tail {s : List Char} {a : Nat} (ha : a ≤ s.length) :
    (substring s a ((s.length : Int) - a) : Except (Raised ε) _) = .ok (s.drop a) := by
  rw [substring_eq ha le_rfl, List.take_of_length_le (by rw [List.length_drop])]

/-- What is cut out from an index to another one with a character at it, and what is behind. -/
theorem drop_eq_cut {s : List Char} {c : Char} {a b : Nat} (hab : a ≤ b) (hc : s[b]? = some c) :
    s.drop a = (s.drop a).take (b - a) ++ c :: s.drop (b + 1) := by
  obtain ⟨hlt, hget⟩ := List.getElem?_eq_some_iff.mp hc
  conv => lhs; rw [← List.take_append_drop (b - a) (s.drop a)]
  rw [List.drop_drop, Nat.add_sub_cancel' hab, List.drop_eq_getElem_cons hlt, hget]

/-- The packet between two markers. -/
def packetAt (format : List Char) (start stop : Nat) : List Char :=
  (format.drop (start + 1)).take (stop - (start + 1))

theorem getFormatPacket_eq {format : List Char} {start stop : Nat}
    (hstop : (findNextNotEscaped (start + 1) format '}' : Except (Raised ε) _) = .ok (some stop)) :
    (getFormatPacket (start + 1) format : Nat × Except (Raised ε) _) =
      (stop + 1, .ok (packetAt format start stop)) := by
  obtain ⟨hle, hlt⟩ := findNextNotEscaped_bounds hstop
  have hcount : (stop : Int) + 1 - (start + 1 : Nat) - 1 = (stop : Int) - (start + 1 : Nat) := by
    omega
  simp only [getFormatPacket, hstop, hcount, substring_eq hle hlt.le, packetAt]

/-! ## `Unescape` -/

/-- What is found behind an index in front of the loop of `Unescape`. -/
theorem unescapeFrom_eq {lastIndex : Nat} {escaped : List Char} (h : lastIndex + 1 ≤ escaped.length) :
    (∀ j, lastIndex + 1 ≤ j → ¬NotEscapedAt escaped '\\' j) ∧
        (unescapeFrom lastIndex escaped : Except (Raised ε) _) = .ok (escaped.drop lastIndex) ∨
      ∃ index, lastIndex + 1 ≤ index ∧ NotEscapedAt escaped '\\' index ∧
        (unescapeFrom lastIndex escaped : Except (Raised ε) _) =
          (unescapeFrom (index + 1) escaped).map fun rest =>
            (escaped.drop lastIndex).take (index - lastIndex) ++ rest := by
  obtain ⟨found, hfound⟩ := findNextNotEscaped_ok (ε := ε) h '\\'
  rw [unescapeFrom]
  cases found with
  | none =>
      refine .inl ⟨findNextNotEscaped_none hfound, ?_⟩
      split
      · rename_i hother
        rw [hfound] at hother
        cases hother
      · exact substring_tail (by omega)
      · rename_i hother
        rw [hfound] at hother
        cases hother
  | some index =>
      obtain ⟨hle, hlt⟩ := findNextNotEscaped_bounds hfound
      refine .inr ⟨index, hle, (findNextNotEscaped_some hfound).1, ?_⟩
      split
      · rename_i hother
        rw [hfound] at hother
        cases hother
      · rename_i hother
        rw [hfound] at hother
        cases hother
      · rename_i other hother
        rw [hfound] at hother
        cases hother
        rw [substring_eq (by omega) hlt.le, ok_bind]
        cases (unescapeFrom (index + 1) escaped : Except (Raised ε) _) <;> rfl

theorem unescapeFrom_raises {lastIndex : Nat} {escaped : List Char}
    (h : escaped.length ≤ lastIndex) :
    (unescapeFrom lastIndex escaped : Except (Raised ε) _) = .error .outOfRange := by
  have hraise : (findNextNotEscaped (lastIndex + 1) escaped '\\' : Except (Raised ε) _) =
      .error .outOfRange := findNextNotEscaped_raises (by omega)
  rw [unescapeFrom]
  split
  · rename_i hother
    rw [hraise] at hother
    cases hother
    rfl
  · rename_i hother
    rw [hraise] at hother
    cases hother
  · rename_i hother
    rw [hraise] at hother
    cases hother

theorem unescape_nil : (unescape [] : Except (Raised ε) _) = .error .outOfRange :=
  unescapeFrom_raises (Nat.le_refl _)

/-- Nothing is added. -/
theorem unescapeFrom_length {lastIndex : Nat} {escaped result : List Char}
    (h : (unescapeFrom lastIndex escaped : Except (Raised ε) _) = .ok result) :
    result.length ≤ escaped.length - lastIndex := by
  induction hn : escaped.length - lastIndex using Nat.strongRecOn generalizing lastIndex result with
  | ind n ih =>
      by_cases hlt : lastIndex + 1 ≤ escaped.length
      · rcases unescapeFrom_eq (ε := ε) hlt with ⟨-, heq⟩ | ⟨index, hle, hat_, heq⟩
        · rw [heq] at h
          cases h
          rw [List.length_drop]
          omega
        · have hindex := hat_.lt
          rw [heq] at h
          cases hrest : (unescapeFrom (index + 1) escaped : Except (Raised ε) _) with
          | error e =>
              rw [hrest] at h
              cases h
          | ok rest =>
              rw [hrest] at h
              cases h
              have hshort := ih _ (by omega) hrest rfl
              rw [List.length_append, List.length_take, List.length_drop]
              omega
      · rw [unescapeFrom_raises (by omega)] at h
        cases h

/-- A value is kept if and only if it is not empty, and every backslash in it is at the beginning
or behind another one. -/
theorem unescape_eq_self_iff {value : List Char} :
    (unescape value : Except (Raised ε) _) = .ok value ↔
      value ≠ [] ∧ ∀ i, value[i + 1]? = some '\\' → value[i]? = some '\\' := by
  by_cases hempty : value = []
  · rw [hempty, unescape_nil]
    simp
  · rw [unescape]
    have hpos : 0 + 1 ≤ value.length := List.length_pos_iff.mpr hempty
    have hkept : (∀ i, value[i + 1]? = some '\\' → value[i]? = some '\\') ↔
        ∀ j, 0 + 1 ≤ j → ¬NotEscapedAt value '\\' j := by
      constructor
      · intro h j hj hat_
        obtain ⟨i, rfl⟩ : ∃ i, j = i + 1 := ⟨j - 1, by omega⟩
        exact hat_.2.elim (by omega) fun hne => hne (h i hat_.1)
      · intro h i hi
        by_contra hne
        exact h (i + 1) (by omega) ⟨hi, .inr hne⟩
    rw [hkept]
    rcases unescapeFrom_eq (ε := ε) hpos with ⟨hnone, heq⟩ | ⟨index, hle, hat_, heq⟩
    · rw [heq]
      simp only [List.drop_zero, hempty, ne_eq, not_false_eq_true, true_and, true_iff]
      exact hnone
    · -- the backslash is left out, so the result is shorter
      have hne : (unescapeFrom 0 value : Except (Raised ε) _) ≠ .ok value := by
        intro hsame
        have hindex := hat_.lt
        rw [heq] at hsame
        cases hrest : (unescapeFrom (index + 1) value : Except (Raised ε) _) with
        | error e =>
            rw [hrest] at hsame
            cases hsame
        | ok rest =>
            rw [hrest] at hsame
            have hshort := unescapeFrom_length hrest
            have hlength := congrArg List.length (Except.ok.inj hsame)
            rw [List.length_append, List.length_take, List.length_drop] at hlength
            omega
      simp only [hne, hempty, ne_eq, not_false_eq_true, true_and, false_iff]
      exact fun h => h index hle hat_

/-! ## Packets -/

/-- The first part of a reference to a macro. -/
def macroPart (name : List Char) : List Char := '[' :: (name ++ [']'])

/-- A text that begins with another character is no number. -/
theorem intTryParse_other {c : Char} (hwhite : isWhite c = false) (hplus : c ≠ '+') (hminus : c ≠ '-')
    (hdigit : digitValue c = none) (rest : List Char) : intTryParse (c :: rest) = none := by
  obtain ⟨text, htrim⟩ : ∃ text, trimWhite (c :: rest) = c :: text := by
    refine ⟨(rest.reverse.dropWhile isWhite).reverse, ?_⟩
    have hfront : (c :: rest).dropWhile isWhite = c :: rest :=
      List.dropWhile_cons_of_neg (by simpa using hwhite)
    rw [trimWhite, hfront, List.reverse_cons, List.dropWhile_append]
    split
    · rename_i hempty
      have hnil : rest.reverse.dropWhile isWhite = [] := by simpa using hempty
      rw [hnil, List.dropWhile_cons_of_neg (by simpa using hwhite)]
      rfl
    · rw [List.reverse_append]
      rfl
  have hdigits : parseDigits 10 (c :: text) = none := by
    rw [parseDigits, List.foldlM_cons, pushDigit, hdigit]
    rfl
  rw [intTryParse, parseInteger, htrim]
  split
  · rename_i heq
    exact absurd (List.cons.inj heq).1 hminus
  · rename_i heq
    exact absurd (List.cons.inj heq).1 hplus
  · rw [hdigits]
    rfl

theorem substring_macroPart (name : List Char) :
    (substring (macroPart name) 1 (((macroPart name).length : Int) - 2) : Except (Raised ε) _) =
      .ok name := by
  have hlength : (macroPart name).length = name.length + 2 := by simp [macroPart]
  have hcount : ((name.length + 2 : Nat) - 2 : Int).toNat = name.length := by omega
  rw [substring, hlength, if_neg (by omega), hcount]
  simp [macroPart]

/-- A macro that is defined, one that the event is asked for, and one that is unknown. -/
theorem lookup_macroPart (f : SimpleFormatter ε) (name : List Char) (args : List Parameter) :
    f.lookup (macroPart name) args =
      match f.textMacros name, f.onGetParameter with
      | some value, _ => .ok (some (stringifyParameter value))
      | none, some getParameter =>
          match getParameter name with
          | .error e => .error (.parameter e)
          | .ok value => .ok (some (stringifyParameter value))
      | none, none =>
          if f.ignoreUnknownMacros then .ok none
          else .error (.format ("Macro '" ++ String.ofList name ++ "' not defined")) := by
  have hparse : intTryParse (macroPart name) = none :=
    intTryParse_other rfl (by simp) (by simp) rfl _
  have hbrackets : ['['] <+: macroPart name ∧ [']'] <:+ macroPart name :=
    ⟨⟨name ++ [']'], rfl⟩, ⟨'[' :: name, rfl⟩⟩
  rw [lookup, hparse]
  simp only [hbrackets, and_self, if_true, substring_macroPart, ok_bind]
  cases f.textMacros name with
  | some value => rfl
  | none =>
      cases f.onGetParameter with
      | some getParameter => cases getParameter name <;> rfl
      | none => rfl

/-- A packet whose first part is looked up without an exception, and is not returned as it
stands. -/
theorem formatPacket_of_lookup {f : SimpleFormatter ε} {format first text : List Char}
    {others : List (List Char)} {args : List Parameter}
    (hsplit : escapeSafeSplit format ':' = (.ok (first :: others) : Except (Raised ε) _))
    (hlookup : f.lookup first args = .ok (some text)) :
    f.formatPacket format args =
      (unescape text >>= fun formatted => align (first :: others) formatted) := by
  simp only [formatPacket, hsplit, ok_bind, hlookup]

theorem formatPacket_as_is {f : SimpleFormatter ε} {format first : List Char}
    {others : List (List Char)} {args : List Parameter}
    (hsplit : escapeSafeSplit format ':' = (.ok (first :: others) : Except (Raised ε) _))
    (hlookup : f.lookup first args = .ok none) :
    f.formatPacket format args = .ok ('{' :: format ++ ['}']) := by
  simp only [formatPacket, hsplit, ok_bind, hlookup]

/-- An exception of the search for the first part leaves `FormatPacket`. -/
theorem formatPacket_raises {f : SimpleFormatter ε} {format first : List Char}
    {others : List (List Char)} {args : List Parameter} {e : Raised ε}
    (hsplit : escapeSafeSplit format ':' = (.ok (first :: others) : Except (Raised ε) _))
    (hlookup : f.lookup first args = .error e) :
    f.formatPacket format args = .error e := by
  simp only [formatPacket, hsplit, ok_bind, hlookup]
  rfl

/-! ## Rounds -/

section Rounds

variable {f : SimpleFormatter ε} {format : List Char} {args : List Parameter} {offset : Nat}
  {formatted : List Char}

theorem formatRound_exit :
    f.formatRound format args ⟨none, formatted⟩ = .ok (.inr formatted) := rfl

/-- The loop ends with a null offset only. -/
theorem formatRound_result {s : FormatState} {result : List Char}
    (h : f.formatRound format args s = .ok (.inr result)) : s = ⟨none, result⟩ := by
  obtain ⟨offset, formatted⟩ := s
  cases offset with
  | none =>
      rw [formatRound_exit] at h
      rw [Sum.inr.inj (Except.ok.inj h)]
  | some offset =>
      obtain ⟨found, -, h⟩ := bind_ok.mp h
      split at h
      · split at h <;> cases h
      · cases h

/-- Behind the last packet the rest is copied. -/
theorem formatRound_last
    (hstart : (findNextNotEscaped offset format '{' : Except (Raised ε) _) = .ok none)
    (hoffset : offset ≤ format.length) :
    f.formatRound format args ⟨some offset, formatted⟩ =
      .ok (.inl ⟨none, formatted ++ format.drop offset⟩) := by
  simp only [formatRound, hstart, ok_bind, formatPart, substring_tail hoffset]

/-- A packet. An exception of `FormatPacket` that is not thrown on leaves out the packet. -/
theorem formatRound_packet {start stop : Nat}
    (hstart : (findNextNotEscaped offset format '{' : Except (Raised ε) _) = .ok (some start))
    (hstop : (findNextNotEscaped (start + 1) format '}' : Except (Raised ε) _) = .ok (some stop)) :
    f.formatRound format args ⟨some offset, formatted⟩ =
      match f.formatPacket (packetAt format start stop) args with
      | .ok text => .ok (.inl
          ⟨some (stop + 1), formatted ++ (format.drop offset).take (start - offset) ++ text⟩)
      | .error e =>
          if f.throwException then .error e
          else .ok (.inl
            ⟨some (stop + 1), formatted ++ (format.drop offset).take (start - offset)⟩) := by
  obtain ⟨hle, hlt⟩ := findNextNotEscaped_bounds hstart
  simp only [formatRound, hstart, ok_bind, formatPart, getFormatPacket_eq hstop,
    substring_eq hle hlt.le]
  cases f.formatPacket (packetAt format start stop) args with
  | ok text => rfl
  | error e => rfl

/-- A packet that is not closed. The offset is 0 where the exception is not thrown on. -/
theorem formatRound_unclosed {start : Nat}
    (hstart : (findNextNotEscaped offset format '{' : Except (Raised ε) _) = .ok (some start))
    (hstop : (findNextNotEscaped (start + 1) format '}' : Except (Raised ε) _) = .ok none) :
    f.formatRound format args ⟨some offset, formatted⟩ =
      if f.throwException then .error (.format "Cannot find end Marker '\x7d'")
      else .ok (.inl ⟨some 0, formatted ++ (format.drop offset).take (start - offset)⟩) := by
  obtain ⟨hle, hlt⟩ := findNextNotEscaped_bounds hstart
  simp only [formatRound, hstart, ok_bind, formatPart, getFormatPacket, hstop,
    substring_eq hle hlt.le]
  rfl

/-- The three kinds of rounds. -/
theorem formatRound_cases {next : FormatState}
    (h : f.formatRound format args ⟨some offset, formatted⟩ = .ok (.inl next)) :
    ((findNextNotEscaped offset format '{' : Except (Raised ε) _) = .ok none ∧
        offset ≤ format.length ∧ next = ⟨none, formatted ++ format.drop offset⟩) ∨
      ∃ start, (findNextNotEscaped offset format '{' : Except (Raised ε) _) = .ok (some start) ∧
        ((∃ stop, (findNextNotEscaped (start + 1) format '}' : Except (Raised ε) _) =
            .ok (some stop) ∧ next.offset = some (stop + 1)) ∨
          ((findNextNotEscaped (start + 1) format '}' : Except (Raised ε) _) = .ok none ∧
            f.throwException = false)) := by
  have hoffset : offset ≤ format.length := by
    by_contra hlt
    have hraise : (findNextNotEscaped offset format '{' : Except (Raised ε) _) = .error .outOfRange :=
      findNextNotEscaped_raises (by omega)
    simp only [formatRound, hraise] at h
    cases h
  obtain ⟨found, hstart⟩ := findNextNotEscaped_ok (ε := ε) hoffset '{'
  cases found with
  | none =>
      rw [formatRound_last hstart hoffset] at h
      exact .inl ⟨hstart, hoffset, (Sum.inl.inj (Except.ok.inj h)).symm⟩
  | some start =>
      refine .inr ⟨start, hstart, ?_⟩
      have hlt := (findNextNotEscaped_bounds hstart).2
      obtain ⟨found, hstop⟩ := findNextNotEscaped_ok (ε := ε) (by omega : start + 1 ≤ format.length) '}'
      cases found with
      | none =>
          refine .inr ⟨hstop, ?_⟩
          rw [formatRound_unclosed hstart hstop] at h
          by_contra hthrow
          rw [if_pos (by simpa using hthrow)] at h
          cases h
      | some stop =>
          refine .inl ⟨stop, hstop, ?_⟩
          rw [formatRound_packet hstart hstop] at h
          split at h
          · cases h
            rfl
          · split at h
            · cases h
            · cases h
              rfl

end Rounds

end InMemoryFuzzing.Utils.SimpleFormatter

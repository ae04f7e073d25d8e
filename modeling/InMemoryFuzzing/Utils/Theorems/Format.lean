import InMemoryFuzzing.Utils.Expansion

/-!
# When `Format` ends, and what it leaves alone

* `terminates_iff` — a packet that is not closed sets the offset back to 0. If the exception is not
  thrown on, the loop begins anew, and comes to the same packet again.
* `format_unknown_macros` — packets of unknown macros are put back as they were cut out, so the
  text is the same behind the configuration pass.
-/

namespace InMemoryFuzzing.Utils.SimpleFormatter

open Base Platform DotNet

variable {ε : Type}

/-! ## The end of the loop -/

/-- Behind every start marker there is an end marker. -/
def Closed (format : List Char) : Prop :=
  ∀ i, NotEscapedAt format '{' i → ∃ j, i < j ∧ NotEscapedAt format '}' j

/-- What is left of the text, and one round more to leave the loop. -/
def roundsLeft (format : List Char) (s : FormatState) : Nat :=
  s.offset.elim 0 fun offset => format.length + 2 - offset

/-- A round comes nearer to the end of the text, unless it sets the offset back. -/
theorem formatRound_progress {f : SimpleFormatter ε} {format : List Char} {args : List Parameter}
    (h : f.throwException = true ∨ Closed format) {s next : FormatState}
    (hround : f.formatRound format args s = .ok (.inl next)) :
    roundsLeft format next < roundsLeft format s := by
  obtain ⟨offset, formatted⟩ := s
  cases offset with
  | none =>
      rw [formatRound_exit] at hround
      cases hround
  | some offset =>
      rcases formatRound_cases hround with ⟨-, hoffset, rfl⟩ | ⟨start, hstart, hnext⟩
      · simp [roundsLeft]
        omega
      · have hbounds := findNextNotEscaped_bounds hstart
        rcases hnext with ⟨stop, hstop, hoffset⟩ | ⟨hstop, hthrow⟩
        · have hbounds' := findNextNotEscaped_bounds hstop
          simp [roundsLeft, hoffset]
          omega
        · -- the packet is not closed: neither disjunct allows this round
          rcases h with h | h
          · rw [hthrow] at h
            cases h
          · obtain ⟨j, hj, hclosing⟩ := h start (findNextNotEscaped_some hstart).1
            exact absurd hclosing (findNextNotEscaped_none hstop j hj)

/-- Where exceptions are not thrown on and a packet is not closed, the loop never passes it. -/
theorem not_terminates {f : SimpleFormatter ε} (hthrow : f.throwException = false)
    {format : List Char} {i : Nat} (hi : NotEscapedAt format '{' i)
    (hopen : ∀ j, i < j → ¬NotEscapedAt format '}' j) (args : List Parameter) :
    ¬f.Terminates format args := by
  have hlt := hi.lt
  apply not_ends_of_round (I := fun s => ∃ offset, s.offset = some offset ∧ offset ≤ i)
    ⟨0, rfl, Nat.zero_le i⟩
  rintro ⟨_, formatted⟩ ⟨offset, heq, hoffset⟩
  cases heq
  obtain ⟨found, hstart⟩ := findNextNotEscaped_ok (ε := ε) (by omega : offset ≤ format.length) '{'
  cases found with
  | none => exact absurd hi (findNextNotEscaped_none hstart i hoffset)
  | some start =>
      obtain ⟨-, hfirst⟩ := findNextNotEscaped_some hstart
      have hle : start ≤ i := by
        by_contra hbehind
        exact hfirst i hoffset (by omega) hi
      obtain ⟨found, hstop⟩ :=
        findNextNotEscaped_ok (ε := ε) (by omega : start + 1 ≤ format.length) '}'
      cases found with
      | none =>
          have hround : f.formatRound format args ⟨some offset, formatted⟩ = _ :=
            formatRound_unclosed hstart hstop
          simp only [hthrow] at hround
          exact ⟨_, hround, 0, rfl, Nat.zero_le i⟩
      | some stop =>
          -- the end marker is in front of `i`, which is a start marker
          obtain ⟨hclosing, -⟩ := findNextNotEscaped_some hstop
          have hstop' : stop < i := by
            rcases Nat.lt_trichotomy stop i with h | rfl | h
            · exact h
            · have hsame := hclosing.1.symm.trans hi.1
              cases hsame
            · exact absurd hclosing (hopen stop h)
          have hround : f.formatRound format args ⟨some offset, formatted⟩ = _ :=
            formatRound_packet hstart hstop
          cases hpacket : f.formatPacket (packetAt format start stop) args with
          | ok text =>
              simp only [hpacket] at hround
              exact ⟨_, hround, stop + 1, rfl, hstop'⟩
          | error e =>
              simp only [hpacket, hthrow] at hround
              exact ⟨_, hround, stop + 1, rfl, hstop'⟩

/-- `Format` terminates if and only if exceptions are thrown on or every packet is closed. -/
theorem terminates_iff (f : SimpleFormatter ε) (format : List Char) (args : List Parameter) :
    f.Terminates format args ↔ f.throwException = true ∨ Closed format := by
  constructor
  · intro h
    by_contra hneither
    rw [not_or] at hneither
    obtain ⟨hthrow, hopen⟩ := hneither
    rw [Closed] at hopen
    push Not at hopen
    obtain ⟨i, hi, hopen⟩ := hopen
    exact not_terminates (by simpa using hthrow) hi hopen args h
  · exact fun h => ends_of_measure (roundsLeft format) fun _ _ _ => formatRound_progress h

/-- The bound on the rounds is never reached. -/
theorem formatText_formats {f : SimpleFormatter ε} (hthrow : f.throwException = true)
    (format : List Char) (args : List Parameter) :
    f.Formats format args (f.formatText format args) := by
  have hround : ∀ s next, f.formatRound format args s = .ok (.inl next) →
      roundsLeft format next < roundsLeft format s :=
    fun _ _ => formatRound_progress (.inl hthrow)
  have hrun := runLoop_of_measure (roundsLeft format) hround (format.length + 3) formatStart
    (by simp [roundsLeft, formatStart])
  obtain ⟨outcome, houtcome⟩ := Option.isSome_iff_exists.mp hrun
  exact ⟨format.length + 3, by rw [formatText, houtcome, Option.getD_some]⟩

/-- A brace alone, where exceptions are caught. -/
theorem single_brace_not_terminates :
    ¬({ new with throwException := false } : SimpleFormatter Empty).Terminates ['{'] [] := by
  have hbrace : NotEscapedAt ['{'] '{' 0 := ⟨rfl, .inl rfl⟩
  have hopen : ∀ j, 0 < j → ¬NotEscapedAt ['{'] '}' j := by
    intro j hj hclosing
    have hlt := hclosing.lt
    simp at hlt
    omega
  exact not_terminates (f := { new with throwException := false }) rfl hbrace hopen []

/-! ## Unknown macros -/

/-- The formatter of `XmlFuzzFactory.Init`, with the macros of the included files. -/
def ofInit (textMacros : List Char → Option Parameter) : SimpleFormatter ε :=
  { new with ignoreUnknownMacros := true, textMacros := textMacros }

/-- A packet that `Format` cuts out in a round. -/
def Extracts (f : SimpleFormatter ε) (format : List Char) (args : List Parameter)
    (packet : List Char) : Prop :=
  ∃ s offset start, Visits (f.formatRound format args) formatStart s ∧ s.offset = some offset ∧
    findNextNotEscaped offset format '{' = (.ok (some start) : Except (Raised ε) _) ∧
    (getFormatPacket (start + 1) format).2 = (.ok packet : Except (Raised ε) _)

/-- The first part of the packet is the name of a macro, in brackets, that is not defined. -/
def UndefinedReference (f : SimpleFormatter ε) (packet : List Char) : Prop :=
  ∃ name others, escapeSafeSplit packet ':' = (.ok (macroPart name :: others) : Except (Raised ε) _) ∧
    f.textMacros name = none

/-- It is put back. -/
theorem formatPacket_undefined {textMacros : List Char → Option Parameter} {packet : List Char}
    (h : (ofInit textMacros : SimpleFormatter ε).UndefinedReference packet)
    (args : List Parameter) :
    (ofInit textMacros : SimpleFormatter ε).formatPacket packet args =
      .ok ('{' :: packet ++ ['}']) := by
  obtain ⟨name, others, hsplit, hundefined⟩ := h
  refine formatPacket_as_is hsplit ?_
  rw [lookup_macroPart, hundefined]
  rfl

/-- What has been formatted is the text up to the offset. -/
def Copied (format : List Char) (s : FormatState) : Prop :=
  match s.offset with
  | some offset => s.formatted = format.take offset
  | none => s.formatted = format

/-- The text up to the end of a packet is the text up to an offset, the literal behind it, and
the packet in its braces. -/
theorem take_packet {format : List Char} {offset start stop : Nat} (hle : offset ≤ start)
    (hstart : format[start]? = some '{') (hle' : start + 1 ≤ stop)
    (hstop : format[stop]? = some '}') :
    format.take offset ++ (format.drop offset).take (start - offset) ++
      ('{' :: packetAt format start stop ++ ['}']) = format.take (stop + 1) := by
  have hliteral := drop_eq_cut hle hstart
  have hpacket := drop_eq_cut hle' hstop
  have hlt := (List.getElem?_eq_some_iff.mp hstop).1
  have hwhole : format.take offset ++ (format.drop offset).take (start - offset) ++
      ('{' :: packetAt format start stop ++ ['}']) ++ format.drop (stop + 1) = format := by
    conv => rhs; rw [← List.take_append_drop offset format, hliteral, hpacket]
    simp [packetAt]
  conv => rhs; rw [← hwhole]
  rw [List.take_left']
  have hlength := congrArg List.length hwhole
  rw [List.length_append, List.length_drop] at hlength
  omega

/-- Every round copies. -/
theorem copied_round {textMacros : List Char → Option Parameter} {format : List Char}
    {args : List Parameter}
    (hpackets : ∀ packet, (ofInit textMacros : SimpleFormatter ε).Extracts format args packet →
      (ofInit textMacros : SimpleFormatter ε).UndefinedReference packet)
    {s next : FormatState}
    (hvisit : Visits ((ofInit textMacros : SimpleFormatter ε).formatRound format args) formatStart s)
    (hs : Copied format s)
    (hround : (ofInit textMacros : SimpleFormatter ε).formatRound format args s = .ok (.inl next)) :
    Copied format next := by
  obtain ⟨offset, formatted⟩ := s
  cases offset with
  | none =>
      rw [formatRound_exit] at hround
      cases hround
  | some offset =>
      have hcopied : formatted = format.take offset := hs
      rcases formatRound_cases hround with ⟨-, -, rfl⟩ | ⟨start, hstart, hnext⟩
      · show formatted ++ format.drop offset = format
        rw [hcopied, List.take_append_drop]
      · rcases hnext with ⟨stop, hstop, -⟩ | ⟨-, hthrow⟩
        · have hle := (findNextNotEscaped_bounds hstart).1
          have hle' := (findNextNotEscaped_bounds hstop).1
          have hcut : (getFormatPacket (start + 1) format).2 =
              (.ok (packetAt format start stop) : Except (Raised ε) _) := by
            rw [getFormatPacket_eq hstop]
          have hundefined := hpackets _ ⟨_, offset, start, hvisit, rfl, hstart, hcut⟩
          rw [formatRound_packet hstart hstop, formatPacket_undefined hundefined args] at hround
          cases hround
          show formatted ++ _ ++ _ = format.take (stop + 1)
          rw [hcopied]
          exact take_packet hle (findNextNotEscaped_some hstart).1.1 hle'
            (findNextNotEscaped_some hstop).1.1
        · cases hthrow

/-- If every packet refers to an unknown macro, what `Format` returns is the text itself. -/
theorem format_unknown_macros {textMacros : List Char → Option Parameter} {format : List Char}
    {args : List Parameter}
    (hpackets : ∀ packet, (ofInit textMacros : SimpleFormatter ε).Extracts format args packet →
      (ofInit textMacros : SimpleFormatter ε).UndefinedReference packet)
    {result : List Char}
    (h : (ofInit textMacros : SimpleFormatter ε).Formats format args (.ok result)) :
    result = format := by
  obtain ⟨s, -, hcopied, hlast⟩ := h.last (P := Copied format) rfl
    fun _ _ hvisit hs hround => copied_round hpackets hvisit hs hround
  cases formatRound_result hlast
  exact hcopied

/-- Of a text that is a packet only this packet is extracted. -/
theorem extracts_single {f : SimpleFormatter ε} {packet extracted : List Char}
    {args : List Parameter} (hpacket : (FormatPiece.packet packet).Plain)
    (h : f.Extracts ('{' :: (packet ++ ['}'])) args extracted) : extracted = packet := by
  obtain ⟨s, offset, start, hvisits, hoffset, hstart, hextracted⟩ := h
  have hfront : BehindMarker [] := .inl rfl
  have hnothing : '{' ∉ ([] : List Char) ∧ '\\' ∉ ([] : List Char) := by simp
  have hround := formatRound_piece hfront hnothing hpacket [] f args []
  have hfirst : (findNextNotEscaped 0 ('{' :: (packet ++ ['}'])) '{' : Except (Raised ε) _) =
      .ok (some 0) := find_start hfront hnothing []
  have hend : (findNextNotEscaped ('{' :: (packet ++ ['}'])).length
      ('{' :: (packet ++ ['}']) ++ []) '{' : Except (Raised ε) _) = .ok none :=
    find_none_append (by simp) _
  rw [List.append_nil] at hend
  rcases hvisits.head with rfl | ⟨next, hnext, hvisits⟩
  · cases hoffset
    rw [hfirst] at hstart
    cases hstart
    obtain ⟨hstop, hcut⟩ : (findNextNotEscaped (0 + 1) ('{' :: (packet ++ ['}'])) '}' :
        Except (Raised ε) _) = .ok (some (0 + 1 + packet.length)) ∧
        packetAt ('{' :: (packet ++ ['}'])) 0 (0 + 1 + packet.length) = packet :=
      @find_stop ε [] [] packet hpacket []
    rw [getFormatPacket_eq hstop, hcut] at hextracted
    exact (Except.ok.inj hextracted).symm
  · -- behind the packet there is no other one
    have hnext' : next.offset = some ('{' :: (packet ++ ['}'])).length := by
      have hbody := hround.symm.trans hnext
      cases hcaught : f.caught (f.formatPacket packet args) with
      | error e =>
          rw [hcaught] at hbody
          cases hbody
      | ok text =>
          rw [hcaught] at hbody
          cases hbody
          rfl
    rcases hvisits.head with rfl | ⟨last, hlast, hvisits⟩
    · cases hoffset.symm.trans hnext'
      rw [hend] at hstart
      cases hstart
    · obtain ⟨nextOffset, formatted⟩ := next
      cases hnext'
      rw [formatRound_last hend (Nat.le_refl _)] at hlast
      cases hlast
      rcases hvisits.head with rfl | ⟨exit, hexit, -⟩
      · cases hoffset
      · rw [formatRound_exit] at hexit
        cases hexit

/-- A variable for the second expansion. -/
theorem remote_pid_survives :
    let format := "{[remote-pid|x]}".toList
    ∃ result, (ofInit fun _ => none : SimpleFormatter Empty).Formats format [] (.ok result) ∧
      result = format := by
  have hpacket : (FormatPiece.packet (macroPart "remote-pid|x".toList)).Plain := by
    simp [FormatPiece.Plain, macroPart]
  have hreference : (ofInit fun _ => none : SimpleFormatter Empty).UndefinedReference
      (macroPart "remote-pid|x".toList) :=
    ⟨_, [], escapeSafeSplit_of_not_mem (by simp [macroPart]), rfl⟩
  have hpieces : ∀ piece ∈ [FormatPiece.packet (macroPart "remote-pid|x".toList)], piece.Plain := by
    simpa using hpacket
  have hformats := format_pieces (ofInit fun _ => none : SimpleFormatter Empty) [] hpieces
  have hexpand : (ofInit fun _ => none : SimpleFormatter Empty).expand []
      [FormatPiece.packet (macroPart "remote-pid|x".toList)] =
      .ok ('{' :: macroPart "remote-pid|x".toList ++ ['}'] ++ []) := by
    rw [expand_cons, expandPiece, formatPacket_undefined hreference]
    rfl
  rw [hexpand] at hformats
  refine ⟨_, hformats, format_unknown_macros ?_ hformats⟩
  intro packet hextracts
  rw [extracts_single hpacket hextracts]
  exact hreference

end InMemoryFuzzing.Utils.SimpleFormatter

import InMemoryFuzzing.Utils.FormatLogic

/-!
# Texts made of literals and packets

`Format` on a text whose literals have no braces and no backslashes: the literals are copied and
every packet is replaced by its own (`format_pieces`), whatever stands around it.
-/

namespace InMemoryFuzzing.Utils.SimpleFormatter

open Base Platform DotNet

variable {ε : Type}

/-- A part of a text. -/
inductive FormatPiece
  | literal (text : List Char)
  | packet (format : List Char)
  deriving DecidableEq, Repr

namespace FormatPiece

/-- The piece as it stands in the text. -/
def text : FormatPiece → List Char
  | .literal text => text
  | .packet format => '{' :: (format ++ ['}'])

/-- The search for a brace finds the one in front of the packet and the one behind it. -/
def Plain : FormatPiece → Prop
  | .literal text => '{' ∉ text ∧ '\\' ∉ text
  | .packet format => '}' ∉ format ∧ format.getLast? ≠ some '\\'

end FormatPiece

/-- The text of the pieces. -/
def textOf (pieces : List FormatPiece) : List Char := pieces.flatMap FormatPiece.text

/-- An exception that is not thrown on leaves out the packet. -/
def caught (f : SimpleFormatter ε) : Except (Raised ε) (List Char) → Except (Raised ε) (List Char)
  | .ok text => .ok text
  | .error e => if f.throwException then .error e else .ok []

/-- What a piece is replaced by. -/
def expandPiece (f : SimpleFormatter ε) (args : List Parameter) :
    FormatPiece → Except (Raised ε) (List Char)
  | .literal text => .ok text
  | .packet format => f.caught (f.formatPacket format args)

/-- What the text is replaced by. -/
def expand (f : SimpleFormatter ε) (args : List Parameter) (pieces : List FormatPiece) :
    Except (Raised ε) (List Char) :=
  collect (f.expandPiece args) pieces

/-! ## Searching in a text that is put together -/

theorem find_in_append {c : Char} {front mid : List Char} (hmid : c ∉ mid)
    (hlast : (front ++ mid).getLast? ≠ some '\\') (back : List Char) :
    (findNextNotEscaped front.length (front ++ (mid ++ c :: back)) c : Except (Raised ε) _) =
      .ok (some (front.length + mid.length)) := by
  have hassoc : front ++ (mid ++ c :: back) = (front ++ mid) ++ c :: back := by simp
  have hlength : (front ++ mid).length = front.length + mid.length := List.length_append
  apply findNextNotEscaped_eq_some
  · refine ⟨?_, ?_⟩
    · rw [hassoc, ← hlength, List.getElem?_append_right le_rfl, Nat.sub_self]
      rfl
    · rw [hassoc, ← hlength]
      rcases Nat.eq_zero_or_pos (front ++ mid).length with h | h
      · exact .inl h
      · right
        rw [List.getElem?_append_left (by omega), ← List.getLast?_eq_getElem?]
        exact hlast
  · exact Nat.le_add_right _ _
  · intro j hj hlt hat_
    apply hmid
    have hhere := hat_.1
    rw [List.getElem?_append_right hj, List.getElem?_append_left (by omega)] at hhere
    exact List.mem_of_getElem? hhere

theorem find_none_append {c : Char} {rest : List Char} (hrest : c ∉ rest) (front : List Char) :
    (findNextNotEscaped front.length (front ++ rest) c : Except (Raised ε) _) = .ok none := by
  apply findNextNotEscaped_eq_none (by simp)
  intro j hj hat_
  have hhere := hat_.1
  rw [List.getElem?_append_right hj] at hhere
  exact hrest (List.mem_of_getElem? hhere)

/-- A text without the character is not split. -/
theorem escapeSafeSplit_of_not_mem {c : Char} {s : List Char} (h : c ∉ s) :
    (escapeSafeSplit s c : Except (Raised ε) _) = .ok [s] := by
  have hnone : (findNextNotEscaped 0 s c : Except (Raised ε) _) = .ok none := find_none_append h []
  rw [escapeSafeSplit, escapeSafeSplitFrom]
  split
  · rename_i hfound
    rw [hnone] at hfound
    cases hfound
  · have htail : (substring s (0 : Nat) ((s.length : Int) - (0 : Nat)) : Except (Raised ε) _) =
        .ok (s.drop 0) := substring_tail (Nat.zero_le _)
    rw [htail]
    rfl
  · rename_i hfound
    rw [hnone] at hfound
    cases hfound

theorem escapeSafeSplitFrom_ok {offset : Nat} {s : List Char} (h : offset ≤ s.length) (c : Char) :
    ∃ parts, (escapeSafeSplitFrom offset s c : Except (Raised ε) _) = .ok parts := by
  fun_induction escapeSafeSplitFrom (ε := ε) offset s c with
  | case1 offset e hfound =>
      obtain ⟨found, hok⟩ := findNextNotEscaped_ok (ε := ε) h c
      rw [hok] at hfound
      cases hfound
  | case2 offset hfound =>
      rw [substring_tail h]
      exact ⟨_, rfl⟩
  | case3 offset index hfound ih =>
      obtain ⟨hle, hlt⟩ := findNextNotEscaped_bounds hfound
      obtain ⟨parts, hparts⟩ := ih (by omega)
      rw [substring_eq hle hlt.le, hparts]
      exact ⟨_, rfl⟩

/-- The first part of a text that is split. -/
theorem escapeSafeSplit_append {c : Char} {first : List Char} (hfirst : c ∉ first)
    (hlast : first.getLast? ≠ some '\\') (rest : List Char) :
    ∃ others, (escapeSafeSplit (first ++ c :: rest) c : Except (Raised ε) _) =
      .ok (first :: others) := by
  have hfind : (findNextNotEscaped 0 (first ++ c :: rest) c : Except (Raised ε) _) =
      .ok (some (0 + first.length)) := @find_in_append ε c [] first hfirst hlast rest
  have hlength : 0 + first.length + 1 ≤ (first ++ c :: rest).length := by
    simp
  obtain ⟨others, hothers⟩ := escapeSafeSplitFrom_ok (ε := ε) hlength c
  refine ⟨others, ?_⟩
  rw [escapeSafeSplit, escapeSafeSplitFrom]
  split
  · rename_i hother
    rw [hfind] at hother
    cases hother
  · rename_i hother
    rw [hfind] at hother
    cases hother
  · rename_i index hother
    rw [hfind] at hother
    cases hother
    rw [substring_eq (Nat.zero_le _) (by omega), hothers]
    simp [bind, Except.bind]

/-! ## All pieces -/

/-- The offset of a round is 0 or behind an end marker. -/
def BehindMarker (front : List Char) : Prop := front = [] ∨ front.getLast? = some '}'

theorem BehindMarker.getLast? {front : List Char} (h : BehindMarker front) {mid : List Char}
    (hmid : mid.getLast? ≠ some '\\') : (front ++ mid).getLast? ≠ some '\\' := by
  rw [List.getLast?_append]
  cases hlast : mid.getLast? with
  | some c => rwa [hlast] at hmid
  | none => rcases h with rfl | h <;> simp [*]

theorem getLast?_of_not_mem {c : Char} {s : List Char} (h : c ∉ s) : s.getLast? ≠ some c :=
  fun hlast => h (List.mem_of_getLast? hlast)

section Packet

variable {front pending packet : List Char} (hfront : BehindMarker front)
  (hpending : '{' ∉ pending ∧ '\\' ∉ pending) (hpacket : (FormatPiece.packet packet).Plain)
  (back : List Char)

include hfront hpending in
/-- The start marker behind a literal. -/
theorem find_start :
    (findNextNotEscaped front.length (front ++ (pending ++ '{' :: (packet ++ '}' :: back))) '{' :
      Except (Raised ε) _) = .ok (some (front.length + pending.length)) :=
  find_in_append hpending.1 (hfront.getLast? (getLast?_of_not_mem hpending.2)) _

include hpacket in
/-- The end marker of the packet, and the packet. -/
theorem find_stop :
    (findNextNotEscaped (front.length + pending.length + 1)
      (front ++ (pending ++ '{' :: (packet ++ '}' :: back))) '}' : Except (Raised ε) _) =
        .ok (some (front.length + pending.length + 1 + packet.length)) ∧
      packetAt (front ++ (pending ++ '{' :: (packet ++ '}' :: back)))
        (front.length + pending.length)
        (front.length + pending.length + 1 + packet.length) = packet := by
  have hbehind : front ++ (pending ++ '{' :: (packet ++ '}' :: back)) =
      (front ++ pending ++ ['{']) ++ (packet ++ '}' :: back) := by simp
  have hlength : (front ++ pending ++ ['{']).length = front.length + pending.length + 1 := by
    simp
    omega
  have hlast : (front ++ pending ++ ['{'] ++ packet).getLast? ≠ some '\\' := by
    rw [List.getLast?_append]
    cases hlast : packet.getLast? with
    | some c => simpa [hlast] using hpacket.2
    | none => simp
  rw [hbehind, packetAt, ← hlength, List.drop_left, Nat.add_sub_cancel_left, List.take_left]
  exact ⟨find_in_append hpacket.1 hlast _, rfl⟩

include hfront hpending hpacket in
/-- The round that replaces a packet behind a literal. -/
theorem formatRound_piece (f : SimpleFormatter ε) (args : List Parameter) (formatted : List Char) :
    f.formatRound (front ++ (pending ++ '{' :: (packet ++ '}' :: back))) args
        ⟨some front.length, formatted⟩ =
      (f.caught (f.formatPacket packet args)).map fun text =>
        .inl ⟨some (front ++ pending ++ '{' :: (packet ++ ['}'])).length,
          formatted ++ pending ++ text⟩ := by
  obtain ⟨hstop, hcut⟩ := find_stop (ε := ε) hpacket back
  have hoffset : (front ++ pending ++ '{' :: (packet ++ ['}'])).length =
      front.length + pending.length + 1 + packet.length + 1 := by
    simp
    omega
  have hliteral : ((front ++ (pending ++ '{' :: (packet ++ '}' :: back))).drop
      front.length).take (front.length + pending.length - front.length) = pending := by
    rw [List.drop_left, Nat.add_sub_cancel_left, List.take_left]
  rw [formatRound_packet (find_start hfront hpending back) hstop, hcut, hliteral, hoffset]
  cases f.formatPacket packet args with
  | ok text => rfl
  | error e =>
      rw [caught]
      cases f.throwException with
      | true => rfl
      | false => simp [Except.map]

end Packet

theorem expand_cons (f : SimpleFormatter ε) (args : List Parameter) (piece : FormatPiece)
    (pieces : List FormatPiece) :
    f.expand args (piece :: pieces) = f.expandPiece args piece >>= fun text =>
      (f.expand args pieces).map fun more => text ++ more := by
  rw [expand, collect]
  cases f.expandPiece args piece with
  | error e => rfl
  | ok text =>
      rw [ok_bind, ok_bind, expand]
      cases collect (f.expandPiece args) pieces <;> rfl

/-- What is put in front of a result, and then of that again. -/
theorem map_append_append {α : Type} (outcome : Except α (List Char)) (front mid : List Char) :
    (outcome.map fun more => mid ++ more).map (fun text => front ++ text) =
      outcome.map fun text => front ++ mid ++ text := by
  cases outcome with
  | error e => rfl
  | ok more => exact congrArg Except.ok (List.append_assoc front mid more).symm

/-- The rounds from a marker on, with a literal in front of the pieces that are left. -/
theorem endsWith_pieces (f : SimpleFormatter ε) (args : List Parameter) {pieces : List FormatPiece}
    (hpieces : ∀ piece ∈ pieces, piece.Plain) {front : List Char} (hfront : BehindMarker front)
    {pending : List Char} (hpending : '{' ∉ pending ∧ '\\' ∉ pending) (formatted : List Char) :
    EndsWith (f.formatRound (front ++ (pending ++ textOf pieces)) args)
      ⟨some front.length, formatted⟩
      ((f.expand args pieces).map fun text => formatted ++ pending ++ text) := by
  induction pieces generalizing front pending formatted with
  | nil =>
      have hstart : (findNextNotEscaped front.length (front ++ (pending ++ textOf [])) '{' :
          Except (Raised ε) _) = .ok none :=
        find_none_append (by simpa [textOf] using hpending.1) front
      refine EndsWith.of_round (formatRound_last hstart (by simp)) (endsWith_result ?_)
      rw [formatRound_exit]
      simp [textOf]
  | cons piece pieces ih =>
      obtain ⟨hpiece, hrest⟩ := List.forall_mem_cons.mp hpieces
      rw [expand_cons]
      cases piece with
      | literal text =>
          -- the literal is copied together with the one in front of it
          have hmore : '{' ∉ pending ++ text ∧ '\\' ∉ pending ++ text := by
            simp [hpending, hpiece.1, hpiece.2]
          have hih := ih hrest hfront hmore formatted
          have htext : pending ++ textOf (.literal text :: pieces) =
              pending ++ text ++ textOf pieces := by
            simp [textOf, FormatPiece.text]
          rw [← List.append_assoc formatted] at hih
          rw [htext, expandPiece, ok_bind, map_append_append]
          exact hih
      | packet packet =>
          have htext : front ++ (pending ++ textOf (.packet packet :: pieces)) =
              front ++ (pending ++ '{' :: (packet ++ '}' :: textOf pieces)) := by
            simp [textOf, FormatPiece.text]
          have hround := formatRound_piece hfront hpending hpiece (textOf pieces) f args formatted
          rw [htext, expandPiece]
          cases hpacket : f.caught (f.formatPacket packet args) with
          | error e =>
              rw [hpacket] at hround
              exact endsWith_error hround
          | ok text =>
              rw [hpacket] at hround
              -- the next round begins behind the end marker
              have hmarker : BehindMarker (front ++ pending ++ '{' :: (packet ++ ['}'])) := by
                right
                rw [List.getLast?_append, ← List.cons_append, List.getLast?_append]
                rfl
              have hnothing : '{' ∉ ([] : List Char) ∧ '\\' ∉ ([] : List Char) := by simp
              have hbehind : front ++ (pending ++ '{' :: (packet ++ '}' :: textOf pieces)) =
                  (front ++ pending ++ '{' :: (packet ++ ['}'])) ++ ([] ++ textOf pieces) := by simp
              have hih := ih hrest hmarker hnothing (formatted ++ pending ++ text)
              rw [← hbehind] at hih
              rw [List.append_nil] at hih
              rw [ok_bind, map_append_append]
              exact EndsWith.of_round hround hih

/-- `Format` on the text of the pieces. -/
theorem format_pieces (f : SimpleFormatter ε) (args : List Parameter) {pieces : List FormatPiece}
    (hpieces : ∀ piece ∈ pieces, piece.Plain) :
    f.Formats (textOf pieces) args (f.expand args pieces) := by
  have hfront : BehindMarker [] := .inl rfl
  have hnothing : '{' ∉ ([] : List Char) ∧ '\\' ∉ ([] : List Char) := by simp
  have h := endsWith_pieces f args hpieces hfront hnothing []
  have hmap : (f.expand args pieces).map (fun text => [] ++ [] ++ text) = f.expand args pieces := by
    cases f.expand args pieces <;> rfl
  rw [hmap] at h
  exact h

/-- Where no piece becomes longer than it is to become, the text is as expected if and only if every
piece is. -/
theorem formats_expected_iff {α : Type} (f : SimpleFormatter ε) (args : List Parameter)
    {parts : List α} {piece : α → FormatPiece} {value : α → List Char}
    (hplain : ∀ part ∈ parts, (piece part).Plain)
    (hshort : ∀ part ∈ parts, ∀ result, f.expandPiece args (piece part) = .ok result →
      result.length ≤ (value part).length) :
    f.Formats (textOf (parts.map piece)) args (.ok (parts.flatMap value)) ↔
      ∀ part ∈ parts, f.expandPiece args (piece part) = .ok (value part) := by
  have hformats : f.Formats (textOf (parts.map piece)) args (f.expand args (parts.map piece)) :=
    format_pieces f args (List.forall_mem_map.mpr hplain)
  have houtcome : f.Formats (textOf (parts.map piece)) args (.ok (parts.flatMap value)) ↔
      f.expand args (parts.map piece) = .ok (parts.flatMap value) :=
    ⟨fun h => hformats.unique h, fun h => h ▸ hformats⟩
  rw [houtcome, expand, collect_map]
  exact collect_expected_iff hshort

end InMemoryFuzzing.Utils.SimpleFormatter

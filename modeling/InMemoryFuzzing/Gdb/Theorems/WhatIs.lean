import InMemoryFuzzing.Gdb.Theorems.Answers
import InMemoryFuzzing.Gdb.TypePrinting

/-!
# Parameters of a function

The handler splits what is between the first parenthesis and the last one at every comma, also at
those of parameter lists inside, and takes the `void` of an empty list for a parameter
(`whatIs_parameters_iff`). That the answer is not taken for one about a missing symbol follows from
where a blank can be in a type (`not_noSymbol`).
-/

namespace InMemoryFuzzing.Gdb

open Base Platform DotNet Regex

/-! ## `GetParametersForMethod` -/

/-- `GetParametersForMethod`, with what the two requests have found: the types of the parameters,
and the symbols of the scope with their lengths. -/
def getParametersForMethod (myParameterTypes : Option (List (List Char)))
    (myDiscoveredSymbols : List (String × Int)) : Option (List (String × Int)) :=
  match myParameterTypes with
  | none => none
  | some types =>
      some (if types.length ≤ myDiscoveredSymbols.length then
        myDiscoveredSymbols.take types.length else [])

/-- A name of one word. -/
def Token.typeName (token : Token) : TypeName := ⟨[], some token, by simp, .inr rfl⟩

/-- gdb's answer for a function. -/
def whatIsLine (returnType : Token) (parameters : List CType) : List Char :=
  "type = ".toList ++ (CType.function (.named returnType.typeName) parameters false).text

/-- The types of the parameters are reported one by one, and so many symbols are parameters. -/
def ReportsParameters (chars : CharData) (returns : Callback → Bool) (symbol : String)
    (returnType : Token) (parameters : List CType) : Prop :=
  ∃ reported types, WhatIsRH.handleResponse chars returns symbol
      [whatIsLine returnType parameters] = .invoke returns (.whatIs symbol reported types) ∧
    types = some (parameters.map CType.text) ∧
    ∀ symbols, parameters.length ≤ symbols.length →
      getParametersForMethod types symbols = some (symbols.take parameters.length)

/-! ## Blanks and punctuation -/

/-- Words with a blank between two of them; all but the last are empty or keywords. -/
def Segment (s : List Char) : Prop :=
  ∃ front last back, s = [' '].intercalate (front ++ last :: back) ∧
    (∀ w ∈ front, w = [] ∨ w ∈ keywords) ∧ ' ' ∉ last ∧ (back = [] ∨ back = [[]])

/-- An ASCII character that is neither a letter nor a blank. -/
structure Punctuation (c : Char) : Prop where
  ascii : c.toNat < 128
  letter : c.isAlpha = false
  blank : c ≠ ' '

/-- Segments with punctuation between them. -/
inductive Punctuated : List Char → Prop
  | segment {s : List Char} (h : Segment s) : Punctuated s
  | cons {s rest : List Char} {c : Char} (h : Segment s) (hc : Punctuation c)
      (hrest : Punctuated rest) : Punctuated (s ++ c :: rest)

/-- What a segment can stand in front of. -/
def Tail (rest : List Char) : Prop :=
  rest = [] ∨ ∃ c others, rest = c :: others ∧ Punctuation c ∧ Punctuated others

theorem Segment.punctuated {s rest : List Char} (h : Segment s) (hrest : Tail rest) :
    Punctuated (s ++ rest) := by
  rcases hrest with rfl | ⟨c, others, rfl, hc, hothers⟩
  · rw [List.append_nil]
    exact .segment h
  · exact .cons h hc hothers

/-- A word alone. -/
theorem segment_word {w : List Char} (h : ' ' ∉ w) : Segment w :=
  ⟨[], w, [], by simp, by simp, h, .inl rfl⟩

theorem Tail.punctuated {rest : List Char} (h : Tail rest) : Punctuated rest :=
  (segment_word (w := []) (by simp)).punctuated h

theorem tail_cons {c : Char} {rest : List Char} (hc : Punctuation c) (h : Punctuated rest) :
    Tail (c :: rest) := .inr ⟨c, rest, rfl, hc, h⟩

/-- A blank in front of a segment. -/
theorem Segment.blank {s : List Char} (h : Segment s) : Segment (' ' :: s) := by
  obtain ⟨front, last, back, rfl, hfront, hlast, hback⟩ := h
  refine ⟨[] :: front, last, back, ?_, List.forall_mem_cons.mpr ⟨.inl rfl, hfront⟩, hlast, hback⟩
  rw [List.cons_append, List.intercalate_cons_of_ne_nil (by simp)]
  rfl

/-! ## Types -/

theorem keywords_blank : ∀ w ∈ keywords, ' ' ∉ w := by decide

/-- All words of a name but the last are keywords. -/
theorem TypeName.words_split (n : TypeName) : ∃ front last, n.words = front ++ [last] ∧
    (∀ w ∈ front, w ∈ keywords) ∧ ' ' ∉ last := by
  have hblank : ∀ w ∈ n.words, ' ' ∉ w := by
    intro w hw hmem
    exact absurd ((n.words_plain w hw).2 _ hmem).1 (by decide)
  cases hname : n.name with
  | some token =>
      have hwords : n.words = n.specifiers ++ [token.text] := by simp [words, hname]
      exact ⟨n.specifiers, token.text, hwords, n.known, hblank _ (by simp [hwords])⟩
  | none =>
      have hwords : n.words = n.specifiers := by simp [words, hname]
      rcases List.eq_nil_or_concat' n.specifiers with hnil | ⟨front, last, hlast⟩
      · exact absurd (hwords.trans hnil) n.words_ne
      · refine ⟨front, last, hwords.trans hlast, ?_, hblank _ (by simp [hwords, hlast])⟩
        intro w hw
        exact n.known w (by simp [hlast, hw])

theorem TypeName.segment (n : TypeName) : Segment n.text := by
  obtain ⟨front, last, hwords, hfront, hlast⟩ := n.words_split
  exact ⟨front, last, [], by rw [text, hwords], fun w hw => .inr (hfront w hw), hlast, .inl rfl⟩

theorem intercalate_blank {words : List (List Char)} (h : words ≠ []) :
    [' '].intercalate (words ++ [[]]) = [' '].intercalate words ++ [' '] := by
  obtain ⟨first, rest, rfl⟩ := List.exists_cons_of_ne_nil h
  rw [List.cons_append, intercalate_cons, intercalate_cons]
  simp

/-- A blank behind the name. -/
theorem TypeName.segment_blank (n : TypeName) : Segment (n.text ++ [' ']) := by
  obtain ⟨front, last, hwords, hfront, hlast⟩ := n.words_split
  refine ⟨front, last, [[]], ?_, fun w hw => .inr (hfront w hw), hlast, .inr rfl⟩
  rw [text, hwords, ← intercalate_blank (by simp), List.append_assoc]
  rfl

theorem Qualifier.text_mem (q : Qualifier) : q.text ∈ keywords := by
  cases q <;> decide

/-- The qualifiers of a pointer. -/
theorem segment_modifier (qualifiers : List Qualifier) (needPostSpace : Bool) :
    Segment (CType.modifier qualifiers needPostSpace) := by
  rcases List.eq_nil_or_concat' qualifiers with rfl | ⟨others, last, rfl⟩
  · cases needPostSpace <;> exact segment_word (by decide)
  have hwords : [' '].intercalate (([] : List Char) :: (others ++ [last]).map Qualifier.text) =
      (others ++ [last]).flatMap fun q => ' ' :: q.text := by
    rw [intercalate_cons, List.nil_append, List.flatMap_map]
    rfl
  have hfront : ∀ w ∈ ([] : List Char) :: others.map Qualifier.text, w = [] ∨ w ∈ keywords := by
    refine List.forall_mem_cons.mpr ⟨.inl rfl, ?_⟩
    intro w hw
    obtain ⟨q, -, rfl⟩ := List.mem_map.mp hw
    exact .inr q.text_mem
  have hlast := keywords_blank _ last.text_mem
  cases needPostSpace with
  | false =>
      refine ⟨_, last.text, [], ?_, hfront, hlast, .inl rfl⟩
      rw [CType.modifier, ← hwords]
      simp
  | true =>
      refine ⟨_, last.text, [[]], ?_, hfront, hlast, .inr rfl⟩
      have hshape : ([] : List Char) :: others.map Qualifier.text ++ [last.text, []] =
          ([] :: (others ++ [last]).map Qualifier.text) ++ [[]] := by simp
      rw [CType.modifier, ← hwords, hshape, intercalate_blank (by simp)]
      simp

theorem punctuation_of {c : Char} (h : c ∈ ['*', '(', ')', '[', ']', ',', '=']) : Punctuation c := by
  have hall : ∀ c ∈ ['*', '(', ')', '[', ']', ',', '='],
      c.toNat < 128 ∧ c.isAlpha = false ∧ c ≠ ' ' := by simp
  obtain ⟨hascii, hletter, hblank⟩ := hall c h
  exact ⟨hascii, hletter, hblank⟩

theorem tail_prefix (t : CType) (passedAPtr needPostSpace : Bool) {rest : List Char}
    (h : Tail rest) : Tail (t.varspecPrefix passedAPtr needPostSpace ++ rest) := by
  induction t using CType.induct generalizing passedAPtr needPostSpace rest with
  | named name => rwa [CType.varspecPrefix, List.nil_append]
  | pointer target qualifiers ih =>
      rw [CType.varspecPrefix, List.append_assoc, List.cons_append]
      apply ih
      exact tail_cons (punctuation_of (by simp))
        ((segment_modifier qualifiers needPostSpace).punctuated h)
  | array element size ih =>
      rw [CType.varspecPrefix, List.append_assoc]
      apply ih
      cases passedAPtr with
      | true => exact tail_cons (punctuation_of (by simp)) h.punctuated
      | false => exact h
  | function result parameters variadic ih _ =>
      rw [CType.varspecPrefix, List.append_assoc]
      apply ih
      cases passedAPtr with
      | true => exact tail_cons (punctuation_of (by simp)) h.punctuated
      | false => exact h

/-- An entry of a parameter list, with a blank in front of it or not. -/
def Entry (text : List Char) : Prop :=
  ∀ rest, Tail rest → Punctuated (text ++ rest) ∧ Punctuated (' ' :: (text ++ rest))

theorem Segment.entry {s : List Char} (h : Segment s) : Entry s :=
  fun _ hrest => ⟨h.punctuated hrest, h.blank.punctuated hrest⟩

/-- A type is an entry if its suffix can follow. -/
theorem entry_of_suffix (t : CType)
    (h : ∀ rest, Tail rest → Tail (t.varspecSuffix false ++ rest)) : Entry t.text := by
  intro rest hrest
  have htail := tail_prefix t false false (h rest hrest)
  rw [CType.text, List.append_assoc, List.append_assoc]
  have hname : Segment (t.base.text ++ t.separator) := by
    cases t with
    | named name =>
        rw [CType.separator, List.append_nil]
        exact name.segment
    | pointer target qualifiers => exact TypeName.segment_blank _
    | array element size => exact TypeName.segment_blank _
    | function result parameters variadic => exact TypeName.segment_blank _
  exact hname.entry _ htail

theorem punctuated_args {entries : List (List Char)} (hentries : ∀ e ∈ entries, Entry e)
    (variadic : Bool) {rest : List Char} (h : Tail rest) :
    Punctuated (CType.printArgs entries variadic ++ rest) := by
  have hmore : ∀ more : List (List Char), (∀ e ∈ more, Entry e) →
      Tail ((more.flatMap fun e => [',', ' '] ++ e) ++ rest) := by
    intro more
    induction more with
    | nil =>
        intro _
        exact h
    | cons e more ih =>
        intro hmore
        obtain ⟨he, hothers⟩ := List.forall_mem_cons.mp hmore
        rw [List.flatMap_cons, List.append_assoc]
        exact tail_cons (punctuation_of (by simp)) (he _ (ih hothers)).2
  rw [CType.printArgs]
  split
  · exact (segment_word (by simp)).punctuated h
  · have hall : ∀ e ∈ entries ++ (if variadic then ["...".toList] else []), Entry e := by
      intro e he
      rcases List.mem_append.mp he with he | he
      · exact hentries e he
      · cases variadic with
        | true =>
            rw [List.mem_singleton.mp he]
            exact (segment_word (by simp)).entry
        | false => cases he
    cases hlist : entries ++ (if variadic then ["...".toList] else []) with
    | nil => exact h.punctuated
    | cons first more =>
        rw [hlist] at hall
        obtain ⟨hfirst, hothers⟩ := List.forall_mem_cons.mp hall
        rw [intercalate_cons, List.append_assoc]
        exact (hfirst _ (hmore more hothers)).1

theorem tail_suffix (t : CType) (passedAPtr : Bool) {rest : List Char} (h : Tail rest) :
    Tail (t.varspecSuffix passedAPtr ++ rest) := by
  induction t using CType.induct generalizing passedAPtr rest with
  | named name => rwa [CType.varspecSuffix, List.nil_append]
  | pointer target qualifiers ih =>
      rw [CType.varspecSuffix]
      exact ih true h
  | array element size ih =>
      have hsize : Segment ((size.map (Nat.toDigits 10)).getD []) := by
        cases size with
        | none => exact segment_word (by simp)
        | some n => exact segment_word (not_mem_toDigits (by norm_num) (by norm_num) (by decide))
      have hbracket : Tail ('[' :: ((size.map (Nat.toDigits 10)).getD [] ++
          ']' :: (element.varspecSuffix false ++ rest))) :=
        tail_cons (punctuation_of (by simp)) (hsize.punctuated
          (tail_cons (punctuation_of (by simp)) (ih false h).punctuated))
      rw [CType.varspecSuffix]
      cases passedAPtr with
      | true => simpa using tail_cons (punctuation_of (by decide : ')' ∈ _)) hbracket.punctuated
      | false => simpa using hbracket
  | function result parameters variadic ih ihparameters =>
      have hentries : ∀ e ∈ CType.texts parameters, Entry e := by
        rw [CType.texts_eq, List.forall_mem_map]
        intro p hp
        exact entry_of_suffix p fun _ hrest => ihparameters p hp false hrest
      have hparenthesis : Tail ('(' :: (CType.printArgs (CType.texts parameters) variadic ++
          ')' :: (result.varspecSuffix false ++ rest))) :=
        tail_cons (punctuation_of (by simp)) (punctuated_args hentries variadic
          (tail_cons (punctuation_of (by simp)) (ih false h).punctuated))
      rw [CType.varspecSuffix]
      cases passedAPtr with
      | true => simpa using tail_cons (punctuation_of (by decide : ')' ∈ _)) hparenthesis.punctuated
      | false => simpa using hparenthesis

theorem entry_text (t : CType) : Entry t.text :=
  entry_of_suffix t fun _ h => tail_suffix t false h

/-- The whole line. -/
theorem punctuated_line (returnType : Token) (parameters : List CType) :
    Punctuated (whatIsLine returnType parameters) := by
  have hline : whatIsLine returnType parameters = "type ".toList ++ '=' :: (' ' ::
      ((CType.function (.named returnType.typeName) parameters false).text ++ [])) := by
    rw [List.append_nil]
    rfl
  have htype : Segment "type ".toList :=
    ⟨[], "type".toList, [[]], rfl, by simp, by simp, .inr rfl⟩
  rw [hline]
  exact .cons htype (punctuation_of (by simp)) (entry_text _ [] (.inl rfl)).2

/-! ## The answer about a missing symbol -/

variable {chars : CharData}

/-- The last word of a text that does not end in a blank. -/
theorem splitOn_last (front : List Char) {c : Char} (hc : c ≠ ' ') :
    ∃ words word, (front ++ [c]).splitOn ' ' = words ++ [word] ∧ word.getLast? = some c := by
  induction hlength : front.length using Nat.strong_induction_on generalizing front with
  | _ length ih =>
  by_cases hblank : ' ' ∈ front
  · obtain ⟨before, behind, rfl⟩ := List.append_of_mem hblank
    obtain ⟨words, word, hwords, hword⟩ := ih behind.length (by simp at hlength; omega) behind rfl
    refine ⟨before.splitOn ' ' ++ words, word, ?_, hword⟩
    rw [List.append_assoc, List.cons_append, List.splitOn_append_cons_self, hwords,
      List.append_assoc]
  · refine ⟨[], front ++ [c], List.splitOn_eq_singleton ?_, by simp⟩
    rw [List.mem_append, List.mem_singleton, not_or]
    exact ⟨hblank, hc.symm⟩

/-- A keyword does not end like `No`. -/
theorem keywords_end (hlower : chars.KeepsLower) {w : List Char} (hw : w ∈ keywords) {c : Char}
    (hlast : w.getLast? = some c) : chars.toLower c ≠ chars.toLower 'o' := by
  have hall : ∀ w ∈ keywords, w.getLast?.all (fun c => c.isLower && c != 'o') = true := by decide
  have hend := hall w hw
  rw [hlast, Option.all_some, Bool.and_eq_true, bne_iff_ne] at hend
  rw [hlower c hend.1, hlower 'o' (by decide)]
  exact hend.2

theorem rNoSymbol_eq (chars : CharData) : WhatIsRH.rNoSymbol chars = Regex.text chars "No" ++
    (Regex.text chars " " ++ (Regex.text chars "symbol" ++ (Regex.text chars " " ++
      [anything false]))) := rfl

/-- The words of a segment. -/
theorem Segment.words {s : List Char} (h : Segment s) : ∃ front back, s.splitOn ' ' = front ++ back ∧
    (∀ w ∈ front, w = [] ∨ w ∈ keywords) ∧ back.length ≤ 2 := by
  obtain ⟨front, last, back, rfl, hfront, hlast, hback⟩ := h
  refine ⟨front, last :: back, ?_, hfront, ?_⟩
  · refine List.splitOn_intercalate ' ' ?_ (by simp)
    intro w hw
    rcases List.mem_append.mp hw with hw | hw
    · rcases hfront w hw with rfl | hkeyword
      · exact List.not_mem_nil
      · exact keywords_blank w hkeyword
    · rcases List.mem_cons.mp hw with rfl | hw
      · exact hlast
      · rcases hback with rfl | rfl
        · cases hw
        · rw [List.mem_singleton.mp hw]
          exact List.not_mem_nil
  · rcases hback with rfl | rfl <;> simp

/-- In a segment a word with two more behind it is a keyword, or there is nothing of it. -/
theorem segment_not_noSymbol (hchars : chars.LettersOnly) (hlower : chars.KeepsLower)
    {s : List Char} (h : Segment s) : ¬(WhatIsRH.rNoSymbol chars).Occurs s := by
  rintro ⟨before, behind, rfl, haccepts⟩
  rw [rNoSymbol_eq] at haccepts
  obtain ⟨no, _, rfl, hno, haccepts⟩ := accepts_text haccepts
  obtain ⟨blank, _, rfl, hblank, haccepts⟩ := accepts_text haccepts
  obtain ⟨symbol, _, rfl, hsymbol, haccepts⟩ := accepts_text haccepts
  obtain ⟨blank', rest, rfl, hblank', -⟩ := accepts_text haccepts
  have htext : " ".toList = [' '] := rfl
  rw [htext] at hblank hblank'
  cases eq_of_same hchars (by decide) (by decide) hblank
  cases eq_of_same hchars (by decide) (by decide) hblank'
  have hmem : ' ' ∉ symbol := by
    intro hmem
    exact absurd (mem_of_same hchars (by decide) (by decide) hsymbol hmem) (by decide)
  obtain ⟨n, o, rfl, hsame⟩ : ∃ n o, no = [n, o] ∧ chars.toLower o = chars.toLower 'o' := by
    have htext : "No".toList = ['N', 'o'] := rfl
    rw [htext] at hno
    cases hno with
    | cons _ hno =>
        cases hno with
        | cons hsame hnil =>
            cases hnil
            exact ⟨_, _, rfl, hsame⟩
  have ho : o ≠ ' ' := by
    rintro rfl
    cases hchars 'o' ' ' (by decide) rfl hsame.symm
  obtain ⟨words, word, hwords, hword⟩ := splitOn_last (before ++ [n]) ho
  obtain ⟨front, back, hsplit, hfront, hback⟩ := h.words
  have hline : before ++ ([n, o] ++ ([' '] ++ (symbol ++ ([' '] ++ rest)))) =
      (before ++ [n] ++ [o]) ++ ' ' :: (symbol ++ ' ' :: rest) := by simp
  rw [hline, List.splitOn_append_cons_self, hwords,
    List.splitOn_append_cons_self_of_not_mem hmem] at hsplit
  have hlength := congrArg List.length hsplit
  have hrest : (rest.splitOn ' ').length ≠ 0 := by
    rw [ne_eq, List.length_eq_zero_iff]
    exact List.splitOn_ne_nil ' ' rest
  simp only [List.length_append, List.length_cons, List.length_nil] at hlength
  have hwhole : words ++ [word] <+: front ++ back := ⟨_, hsplit⟩
  have hfirst : words ++ [word] <+: front := by
    refine List.prefix_of_prefix_length_le hwhole ⟨back, rfl⟩ ?_
    rw [List.length_append, List.length_singleton]
    omega
  rcases hfront word (hfirst.subset (by simp)) with rfl | hkeyword
  · cases hword
  · exact keywords_end hlower hkeyword hword hsame

/-- gdb's answer for a function is not taken for one about a missing symbol. -/
theorem not_noSymbol (hchars : chars.LettersOnly) (hlower : chars.KeepsLower) {line : List Char}
    (h : Punctuated line) : ¬(WhatIsRH.rNoSymbol chars).Occurs line := by
  induction h with
  | segment h => exact segment_not_noSymbol hchars hlower h
  | @cons s rest c h hc _ ih =>
      intro hoccurs
      have hall : ∀ c ∈ "No symbol ".toList, c.isAlpha = true ∨ c = ' ' := by simp
      have hnot : c ∉ "No symbol ".toList := by
        intro hmem
        rcases hall c hmem with hletter | hblank
        · rw [hc.letter] at hletter
          cases hletter
        · exact hc.blank hblank
      rcases occurs_text_split hchars hc.ascii hc.letter hnot hoccurs with hfront | hback
      · exact segment_not_noSymbol hchars hlower h hfront
      · exact ih hback

/-! ## What is reported -/

theorem whatIsLine_eq (returnType : Token) (parameters : List CType) :
    whatIsLine returnType parameters = "type = ".toList ++ (returnType.text ++ ' ' ::
      ('(' :: (CType.printArgs (parameters.map CType.text) false ++ [')']))) := by
  have hname : returnType.typeName.text = returnType.text := by
    simp [TypeName.text, TypeName.words, Token.typeName]
  have hfunction : (CType.function (.named returnType.typeName) parameters false).text =
      returnType.text ++ ' ' ::
        ('(' :: (CType.printArgs (parameters.map CType.text) false ++ [')'])) := by
    simp only [CType.text, CType.base, CType.separator, CType.varspecPrefix, CType.varspecSuffix,
      CType.texts_eq, hname]
    simp
  exact congrArg (fun text => "type = ".toList ++ text) hfunction

/-- The return type ends at the first blank, the parameters at the last parenthesis. -/
theorem search_r (chars : CharData) (returnType : Token) (parameters : List Char) :
    (WhatIsRH.r chars).search ("type = ".toList ++ (returnType.text ++ ' ' ::
      ('(' :: (parameters ++ [')'])))) = some [returnType.text, parameters] := by
  have hend : Pattern.matchFront ([anything true] ++ Regex.text chars ")")
      (parameters ++ [')']) = some [parameters] := by
    have hlast : Pattern.matchFront (Regex.text chars ")") [')'] = some [] := by
      have h := matchFront_text chars ")" [] []
      rwa [List.append_nil] at h
    have hgreedy : Pattern.greedy (fun _ => true) (Pattern.matchFront (Regex.text chars ")"))
        (parameters ++ [')']) = some (parameters, []) :=
      Pattern.greedy_run (fun _ _ => rfl) hlast rfl
    exact congrArg (Option.map (Pattern.group true)) hgreedy
  have hmiddle : Pattern.matchFront (Regex.text chars " (" ++ ([anything true] ++
      Regex.text chars ")")) (' ' :: ('(' :: (parameters ++ [')']))) = some [parameters] :=
    (matchFront_text chars " (" _ _).trans hend
  have hreturn : ∀ c ∈ returnType.text, (!isWhiteSpace c) = true := by
    intro c hc
    rw [(returnType.plain c hc).1]
    rfl
  have hgreedy := Pattern.greedy_stop hreturn (by decide : (!isWhiteSpace ' ') = false) hmiddle
  apply Pattern.search_of_matchFront
  rw [WhatIsRH.r, List.append_assoc, List.append_assoc, List.append_assoc, matchFront_text]
  exact congrArg (Option.map (Pattern.group true)) hgreedy

theorem not_mem_of_splitOn {sep : Char} {text : List Char} :
    ∀ piece ∈ text.splitOn sep, sep ∉ piece := by
  induction hlength : text.length using Nat.strong_induction_on generalizing text with
  | _ length ih =>
  by_cases hsep : sep ∈ text
  · obtain ⟨front, back, rfl⟩ := List.append_of_mem hsep
    intro piece hpiece
    rw [List.splitOn_append_cons_self, List.mem_append] at hpiece
    rcases hpiece with hpiece | hpiece
    · exact ih front.length (by simp at hlength; omega) rfl piece hpiece
    · exact ih back.length (by simp at hlength; omega) rfl piece hpiece
  · intro piece hpiece
    rw [List.splitOn_eq_singleton hsep, List.mem_singleton] at hpiece
    rwa [hpiece]

theorem mem_of_mem_trim {c : Char} {text : List Char} (h : c ∈ trim text) : c ∈ text := by
  rw [trim, List.mem_reverse] at h
  have hright := (List.dropWhile_suffix isWhiteSpace).subset h
  exact (List.dropWhile_suffix isWhiteSpace).subset (List.mem_reverse.mp hright)

/-- There is no comma in a parameter that is reported. -/
theorem realParameters_comma {parameters p : List Char}
    (h : p ∈ WhatIsRH.realParameters parameters) : ',' ∉ p := by
  obtain ⟨hmem, -⟩ := List.mem_filter.mp h
  obtain ⟨piece, hpiece, rfl⟩ := List.mem_map.mp hmem
  exact fun hcomma => not_mem_of_splitOn piece hpiece (mem_of_mem_trim hcomma)

theorem trim_text (t : CType) : trim t.text = t.text := by
  obtain ⟨c, back, hfront, hc⟩ := t.text_front
  obtain ⟨front, d, hback, hd⟩ := t.text_back
  exact trim_of_ends hfront hc hback hd

theorem trim_blank (t : CType) : trim (' ' :: t.text) = t.text := by
  have hdrop : (' ' :: t.text).dropWhile isWhiteSpace = t.text.dropWhile isWhiteSpace := by
    rw [List.dropWhile_cons, if_pos (by decide)]
  rw [trim, hdrop]
  exact trim_text t

/-- The parameters are split at the commas between them, if there are no others. -/
theorem splitOn_args {first : List Char} {rest : List (List Char)} (hfirst : ',' ∉ first)
    (hrest : ∀ text ∈ rest, ',' ∉ text) :
    (first ++ rest.flatMap fun text => [',', ' '] ++ text).splitOn ',' =
      first :: rest.map fun text => ' ' :: text := by
  induction rest generalizing first with
  | nil =>
      rw [List.flatMap_nil, List.append_nil]
      exact List.splitOn_eq_singleton hfirst
  | cons next rest ih =>
      obtain ⟨hnext, hothers⟩ := List.forall_mem_cons.mp hrest
      have hblank : ',' ∉ ' ' :: next := by
        rw [List.mem_cons, not_or]
        exact ⟨by decide, hnext⟩
      have hshape : first ++ (next :: rest).flatMap (fun text => [',', ' '] ++ text) =
          first ++ ',' :: ((' ' :: next) ++ rest.flatMap fun text => [',', ' '] ++ text) := by simp
      rw [hshape, List.splitOn_append_cons_self_of_not_mem hfirst, ih hblank hothers, List.map_cons]

/-- If there is no other comma, the parameters are reported as they are. -/
theorem realParameters_eq {parameters : List CType} (hne : parameters ≠ [])
    (h : ∀ t ∈ parameters, ',' ∉ t.text) :
    WhatIsRH.realParameters (CType.printArgs (parameters.map CType.text) false) =
      parameters.map CType.text := by
  obtain ⟨first, rest, rfl⟩ := List.exists_cons_of_ne_nil hne
  have hargs : CType.printArgs ((first :: rest).map CType.text) false =
      first.text ++ (rest.map CType.text).flatMap fun text => [',', ' '] ++ text := by
    rw [CType.printArgs, if_neg (by simp), List.map_cons, List.cons_append, intercalate_cons]
    simp
  obtain ⟨hfirst, hrest⟩ := List.forall_mem_cons.mp h
  have htexts : ((first.text :: (rest.map CType.text).map fun text => ' ' :: text).map trim) =
      (first :: rest).map CType.text := by
    rw [List.map_cons, List.map_map, List.map_map, List.map_cons, trim_text]
    exact congrArg (List.cons first.text) (List.map_congr_left fun t _ => trim_blank t)
  rw [WhatIsRH.realParameters, hargs, splitOn_args hfirst (List.forall_mem_map.mpr hrest), htexts,
    List.filter_eq_self]
  intro text htext
  obtain ⟨t, -, rfl⟩ := List.mem_map.mp htext
  obtain ⟨c, back, hfront, -⟩ := t.text_front
  rw [hfront]
  rfl

/-! ## Every function type -/

/-- The parameters are reported if and only if there is one, and no function type in them has two
entries in its parameter list. -/
theorem whatIs_parameters_iff (hchars : chars.LettersOnly) (hlower : chars.KeepsLower)
    (returns : Callback → Bool) (symbol : String) (returnType : Token) (parameters : List CType) :
    ReportsParameters chars returns symbol returnType parameters ↔
      parameters ≠ [] ∧ ∀ t ∈ parameters, t.Flat := by
  have hnone : (WhatIsRH.rNoSymbol chars).search (whatIsLine returnType parameters) = none := by
    rw [← Option.not_isSome_iff_eq_none, Pattern.search_isSome]
    exact not_noSymbol hchars hlower (punctuated_line returnType parameters)
  have hresponse : WhatIsRH.handleResponse chars returns symbol [whatIsLine returnType parameters] =
      .invoke returns (.whatIs symbol (some returnType.text) (some (WhatIsRH.realParameters
        (CType.printArgs (parameters.map CType.text) false)))) := by
    have hsearch := search_r chars returnType (CType.printArgs (parameters.map CType.text) false)
    rw [← whatIsLine_eq] at hsearch
    rw [WhatIsRH.handleResponse, hnone, hsearch]
    rfl
  have hcommas : (∀ t ∈ parameters, t.Flat) ↔ ∀ t ∈ parameters, ',' ∉ t.text :=
    forall₂_congr fun t _ => t.comma_iff_flat.symm
  rw [hcommas]
  constructor
  · rintro ⟨reported, types, hreported, rfl, -⟩
    rw [hresponse] at hreported
    have hcallback := congrArg Response.callbacks hreported
    simp only [Response.invoke, List.cons.injEq, Callback.whatIs.injEq, Option.some.injEq,
      true_and, and_true] at hcallback
    obtain ⟨-, htypes⟩ := hcallback
    constructor
    · rintro rfl
      cases htypes
    · intro t ht
      apply realParameters_comma
      rw [htypes]
      exact List.mem_map_of_mem ht
  · rintro ⟨hne, hcomma⟩
    refine ⟨_, _, hresponse, by rw [realParameters_eq hne hcomma], ?_⟩
    intro symbols hlength
    rw [realParameters_eq hne hcomma, getParametersForMethod]
    simp [hlength]

def intToken : Token := ⟨"int".toList, by simp, by simp [isWhiteSpace, isWhite]⟩

/-- `const char *` and `int (*)(void *)`. -/
def sampleParameters : List CType :=
  [.pointer (.named ⟨["const".toList, "char".toList], none, by decide, by decide⟩) [],
    .pointer (.function (.named intToken.typeName)
      [.pointer (.named ⟨["void".toList], none, by decide, by decide⟩) []] false) []]

theorem sample_parameters_reported : whatIsLine intToken sampleParameters =
      "type = int (const char *, int (*)(void *))".toList ∧
    ReportsParameters asciiData (fun _ => true) "f" intToken sampleParameters := by
  have hflat : ∀ t ∈ sampleParameters, t.Flat := by
    refine List.forall_mem_cons.mpr ⟨.pointer (.named _), List.forall_mem_singleton.mpr ?_⟩
    refine .pointer (.function (.named _) ?_ (by simp))
    exact List.forall_mem_singleton.mpr (.pointer (.named _))
  exact ⟨by decide, (whatIs_parameters_iff asciiData_lettersOnly asciiData_keepsLower _ "f" intToken
    sampleParameters).mpr ⟨List.cons_ne_nil _ _, hflat⟩⟩

/-- The parameter of `type = int (void)`. -/
theorem void_reported : ¬ReportsParameters asciiData (fun _ => true) "f" intToken [] := by
  rintro ⟨reported, types, hreported, rfl, -⟩
  have hvoid : (WhatIsRH.handleResponse asciiData (fun _ => true) "f"
      [whatIsLine intToken []]).callbacks = [.whatIs "f" (some "int".toList) (some ["void".toList])] := by
    decide
  rw [hreported] at hvoid
  simp [Response.invoke] at hvoid

end InMemoryFuzzing.Gdb

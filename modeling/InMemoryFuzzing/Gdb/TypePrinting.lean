import InMemoryFuzzing.Gdb.RegexLogic

/-!
# Types as gdb prints them

The name of a type comes first, and around an empty place the declarators: pointers to the left of
it, arrays and parameter lists to the right, in parentheses where a pointer points to one of these.
-/

namespace InMemoryFuzzing.Gdb

open Base Platform DotNet

/-- The words that a tag or a `typedef` name may stand behind. -/
def keywords : List (List Char) :=
  ["const", "volatile", "restrict", "_Atomic", "struct", "union", "enum", "unsigned", "signed",
    "short", "long", "int", "char", "float", "double", "void", "_Bool", "_Complex"].map
      String.toList

/-- A name without white space. -/
structure Token where
  text : List Char
  ne : text ≠ []
  plain : ∀ c ∈ text, isWhiteSpace c = false ∧ c ≠ ','

/-- The words in front of the declarators: keywords, and then a name if there is one. -/
structure TypeName where
  specifiers : List (List Char)
  name : Option Token
  known : ∀ w ∈ specifiers, w ∈ keywords
  ne : specifiers ≠ [] ∨ name.isSome = true

theorem ends_append {front back : List Char}
    (h : ∃ rest c, back = rest ++ [c] ∧ isWhiteSpace c = false) :
    ∃ rest c, front ++ back = rest ++ [c] ∧ isWhiteSpace c = false := by
  obtain ⟨rest, c, rfl, hc⟩ := h
  exact ⟨front ++ rest, c, (List.append_assoc _ _ _).symm, hc⟩

namespace TypeName

def words (n : TypeName) : List (List Char) := n.specifiers ++ (n.name.map Token.text).toList

def text (n : TypeName) : List Char := [' '].intercalate n.words

theorem keywords_plain : ∀ w ∈ keywords, w ≠ [] ∧ ∀ c ∈ w, isWhiteSpace c = false ∧ c ≠ ',' := by
  simp [keywords, isWhiteSpace, isWhite]

theorem words_plain (n : TypeName) :
    ∀ w ∈ n.words, w ≠ [] ∧ ∀ c ∈ w, isWhiteSpace c = false ∧ c ≠ ',' := by
  intro w hw
  rcases List.mem_append.mp hw with hspecifier | hname
  · exact keywords_plain w (n.known w hspecifier)
  · rw [Option.mem_toList, Option.map_eq_some_iff] at hname
    obtain ⟨token, -, rfl⟩ := hname
    exact ⟨token.ne, token.plain⟩

theorem words_ne (n : TypeName) : n.words ≠ [] := by
  intro hnil
  obtain ⟨hspecifiers, hname⟩ := List.append_eq_nil_iff.mp hnil
  rcases n.ne with hne | hsome
  · exact hne hspecifiers
  · obtain ⟨token, htoken⟩ := Option.isSome_iff_exists.mp hsome
    rw [htoken] at hname
    cases hname

/-- The first word, and a blank in front of each other one. -/
theorem text_eq (n : TypeName) : ∃ first rest, n.words = first :: rest ∧
    n.text = first ++ rest.flatMap fun w => [' '] ++ w := by
  obtain ⟨first, rest, hwords⟩ := List.exists_cons_of_ne_nil n.words_ne
  exact ⟨first, rest, hwords, by rw [text, hwords, intercalate_cons]⟩

theorem text_front (n : TypeName) : ∃ c rest, n.text = c :: rest ∧ isWhiteSpace c = false := by
  obtain ⟨first, rest, hwords, htext⟩ := n.text_eq
  obtain ⟨hne, hplain⟩ := n.words_plain first (by simp [hwords])
  obtain ⟨c, front, rfl⟩ := List.exists_cons_of_ne_nil hne
  exact ⟨c, _, htext, (hplain c List.mem_cons_self).1⟩

theorem text_back (n : TypeName) : ∃ rest c, n.text = rest ++ [c] ∧ isWhiteSpace c = false := by
  have hback : ∀ w ∈ n.words, ∃ rest c, w = rest ++ [c] ∧ isWhiteSpace c = false := by
    intro w hw
    obtain ⟨hne, hplain⟩ := n.words_plain w hw
    refine ⟨w.dropLast, w.getLast hne, (List.dropLast_append_getLast hne).symm, ?_⟩
    exact (hplain _ (List.getLast_mem hne)).1
  obtain ⟨first, rest, hwords, htext⟩ := n.text_eq
  rw [hwords] at hback
  rw [htext]
  rcases List.eq_nil_or_concat' rest with rfl | ⟨others, last, rfl⟩
  · rw [List.flatMap_nil, List.append_nil]
    exact hback first List.mem_cons_self
  · rw [List.flatMap_append, List.flatMap_singleton]
    exact ends_append (ends_append (ends_append (hback last (by simp))))

theorem comma_not_mem (n : TypeName) : ',' ∉ n.text := by
  obtain ⟨first, rest, hwords, htext⟩ := n.text_eq
  have hplain : ∀ w ∈ n.words, ',' ∉ w := fun w hw hmem => ((n.words_plain w hw).2 _ hmem).2 rfl
  rw [hwords] at hplain
  rw [htext, List.mem_append, List.mem_flatMap]
  rintro (hmem | ⟨w, hw, hmem⟩)
  · exact hplain first List.mem_cons_self hmem
  · rw [List.singleton_append, List.mem_cons, or_iff_right (by decide)] at hmem
    exact hplain w (List.mem_cons_of_mem _ hw) hmem

end TypeName

inductive Qualifier
  | const
  | volatile
  | restrict
  deriving DecidableEq, Repr

def Qualifier.text : Qualifier → List Char
  | .const => "const".toList
  | .volatile => "volatile".toList
  | .restrict => "restrict".toList

/-- The types of C. -/
inductive CType
  | named (name : TypeName)
  | pointer (target : CType) (qualifiers : List Qualifier)
  | array (element : CType) (size : Option Nat)
  | function (result : CType) (parameters : List CType) (variadic : Bool)

namespace CType

/-- The induction with the parameters of a function. -/
theorem induct {motive : CType → Prop} (named : ∀ name, motive (.named name))
    (pointer : ∀ target qualifiers, motive target → motive (.pointer target qualifiers))
    (array : ∀ element size, motive element → motive (.array element size))
    (function : ∀ result parameters variadic, motive result → (∀ p ∈ parameters, motive p) →
      motive (.function result parameters variadic)) (t : CType) : motive t :=
  @CType.rec motive (fun parameters => ∀ p ∈ parameters, motive p) named pointer array function
    (by simp) (fun _ _ hhead htail => List.forall_mem_cons.mpr ⟨hhead, htail⟩) t

/-! ## Printing -/

/-- The name that everything is derived from. -/
def base : CType → TypeName
  | .named name => name
  | .pointer target _ => target.base
  | .array element _ => element.base
  | .function result _ _ => result.base

/-- The qualifiers of a pointer. -/
def modifier (qualifiers : List Qualifier) (needPostSpace : Bool) : List Char :=
  qualifiers.flatMap (fun q => ' ' :: q.text) ++
    if needPostSpace && !qualifiers.isEmpty then [' '] else []

/-- What is to the left of the place for a name. -/
def varspecPrefix : CType → Bool → Bool → List Char
  | .named _, _, _ => []
  | .pointer target qualifiers, _, needPostSpace =>
      target.varspecPrefix true true ++ '*' :: modifier qualifiers needPostSpace
  | .array element _, passedAPtr, needPostSpace =>
      element.varspecPrefix false needPostSpace ++ if passedAPtr then ['('] else []
  | .function result _ _, passedAPtr, _ =>
      result.varspecPrefix false false ++ if passedAPtr then ['('] else []

/-- A blank behind the name, unless there is nothing else. -/
def separator : CType → List Char
  | .named _ => []
  | _ => [' ']

/-- Parameters, and an ellipsis behind them. -/
def printArgs (parameters : List (List Char)) (variadic : Bool) : List Char :=
  if parameters.isEmpty && !variadic then "void".toList
  else [',', ' '].intercalate (parameters ++ if variadic then ["...".toList] else [])

mutual

/-- What is to the right of the place for a name. -/
def varspecSuffix : CType → Bool → List Char
  | .named _, _ => []
  | .pointer target _, _ => target.varspecSuffix true
  | .array element size, passedAPtr =>
      (if passedAPtr then [')'] else []) ++
        '[' :: ((size.map (Nat.toDigits 10)).getD [] ++ ']' :: element.varspecSuffix false)
  | .function result parameters variadic, passedAPtr =>
      (if passedAPtr then [')'] else []) ++
        '(' :: (printArgs (texts parameters) variadic ++ ')' :: result.varspecSuffix false)

/-- The parameters of a list. -/
def texts : List CType → List (List Char)
  | [] => []
  | t :: ts => (t.base.text ++ t.separator ++ t.varspecPrefix false false ++ t.varspecSuffix false) ::
      texts ts

end

/-- A type as it is printed. -/
def text (t : CType) : List Char :=
  t.base.text ++ t.separator ++ t.varspecPrefix false false ++ t.varspecSuffix false

theorem texts_eq (ts : List CType) : texts ts = ts.map text := by
  induction ts with
  | nil => rfl
  | cons t ts ih =>
      rw [texts, ih]
      rfl

/-- The function types in it have one parameter at most, or nothing but an ellipsis. -/
inductive Flat : CType → Prop
  | named (name : TypeName) : Flat (.named name)
  | pointer {target : CType} {qualifiers : List Qualifier} (h : Flat target) :
      Flat (.pointer target qualifiers)
  | array {element : CType} {size : Option Nat} (h : Flat element) : Flat (.array element size)
  | function {result : CType} {parameters : List CType} {variadic : Bool} (hresult : Flat result)
      (hparameters : ∀ p ∈ parameters, Flat p) (hone : parameters.length + variadic.toNat ≤ 1) :
      Flat (.function result parameters variadic)

example : (pointer (function (named ⟨["int".toList], none, by decide, by decide⟩)
    [pointer (named ⟨["const".toList, "char".toList], none, by decide, by decide⟩) [.const]] true)
      []).text = "int (*)(const char * const, ...)".toList := by decide

/-! ## The ends of a type -/

/-- A suffix ends in a bracket or a parenthesis. -/
theorem varspecSuffix_back (t : CType) (passedAPtr : Bool) : t.varspecSuffix passedAPtr = [] ∨
    ∃ rest c, t.varspecSuffix passedAPtr = rest ++ [c] ∧ isWhiteSpace c = false := by
  induction t using induct generalizing passedAPtr with
  | named name => exact .inl (by rw [varspecSuffix])
  | pointer target qualifiers ih =>
      rw [varspecSuffix]
      exact ih true
  | array element size ih =>
      right
      rw [varspecSuffix]
      apply ends_append
      rw [← List.cons_append]
      rcases ih false with hnil | hend
      · exact ⟨_, ']', by rw [hnil], by decide⟩
      · apply ends_append
        rw [← List.singleton_append]
        exact ends_append hend
  | function result parameters variadic ih _ =>
      right
      rw [varspecSuffix]
      apply ends_append
      rw [← List.cons_append]
      rcases ih false with hnil | hend
      · exact ⟨_, ')', by rw [hnil], by decide⟩
      · apply ends_append
        rw [← List.singleton_append]
        exact ends_append hend

theorem text_front (t : CType) : ∃ c rest, t.text = c :: rest ∧ isWhiteSpace c = false := by
  obtain ⟨c, rest, hbase, hc⟩ := t.base.text_front
  refine ⟨c, rest ++ (t.separator ++ (t.varspecPrefix false false ++ t.varspecSuffix false)), ?_, hc⟩
  simp only [text, hbase, List.cons_append, List.append_assoc]

theorem modifier_back (qualifiers : List Qualifier) :
    ∃ rest c, '*' :: modifier qualifiers false = rest ++ [c] ∧ isWhiteSpace c = false := by
  have hmodifier : modifier qualifiers false = qualifiers.flatMap fun q => ' ' :: q.text :=
    List.append_nil _
  rw [hmodifier]
  rcases List.eq_nil_or_concat' qualifiers with rfl | ⟨others, last, rfl⟩
  · exact ⟨[], '*', rfl, by decide⟩
  · have hlast : ∃ rest c, last.text = rest ++ [c] ∧ isWhiteSpace c = false := by
      cases last with
      | const => exact ⟨"cons".toList, 't', rfl, by decide⟩
      | volatile => exact ⟨"volatil".toList, 'e', rfl, by decide⟩
      | restrict => exact ⟨"restric".toList, 't', rfl, by decide⟩
    rw [List.flatMap_append, List.flatMap_singleton, ← List.singleton_append,
      ← List.singleton_append (x := ' ')]
    exact ends_append (ends_append (ends_append hlast))

/-- There is no white space at the end: the blank behind a qualifier is for another declarator. -/
theorem text_back (t : CType) : ∃ rest c, t.text = rest ++ [c] ∧ isWhiteSpace c = false := by
  rw [text, List.append_assoc]
  rcases t.varspecSuffix_back false with hnil | hend
  · rw [hnil, List.append_nil]
    cases t with
    | named name =>
        rw [separator, varspecPrefix, List.append_nil, List.append_nil]
        exact name.text_back
    | pointer target qualifiers =>
        rw [varspecPrefix]
        exact ends_append (ends_append (modifier_back qualifiers))
    | array element size =>
        rw [varspecSuffix] at hnil
        simp at hnil
    | function result parameters variadic =>
        rw [varspecSuffix] at hnil
        simp at hnil
  · exact ends_append (ends_append hend)

/-! ## Commas -/

theorem comma_not_mem_prefix (t : CType) (passedAPtr needPostSpace : Bool) :
    ',' ∉ t.varspecPrefix passedAPtr needPostSpace := by
  induction t using induct generalizing passedAPtr needPostSpace with
  | named name => simp [varspecPrefix]
  | pointer target qualifiers ih =>
      have hqualifier : ∀ q : Qualifier, ',' ∉ q.text := by
        intro q
        cases q <;> decide
      simp [varspecPrefix, modifier, ih, hqualifier]
  | array element size ih => cases passedAPtr <;> simp [varspecPrefix, ih]
  | function result parameters variadic ih _ => cases passedAPtr <;> simp [varspecPrefix, ih]

/-- Commas are to the right of the place for a name. -/
theorem comma_text_iff (t : CType) : ',' ∉ t.text ↔ ',' ∉ t.varspecSuffix false := by
  have hseparator : ',' ∉ t.separator := by
    cases t <;> simp [separator]
  rw [text, List.mem_append, List.mem_append, List.mem_append,
    or_iff_right (not_or.mpr ⟨not_or.mpr ⟨t.base.comma_not_mem, hseparator⟩,
      t.comma_not_mem_prefix false false⟩)]

theorem comma_printArgs_iff (parameters : List (List Char)) (variadic : Bool) :
    ',' ∉ printArgs parameters variadic ↔
      (∀ p ∈ parameters, ',' ∉ p) ∧ parameters.length + variadic.toNat ≤ 1 := by
  cases parameters with
  | nil => cases variadic <;> decide
  | cons first rest =>
      rw [printArgs, if_neg (by simp), List.cons_append, intercalate_cons]
      cases hrest : rest ++ if variadic then ["...".toList] else [] with
      | nil =>
          obtain ⟨rfl, hvariadic⟩ := List.append_eq_nil_iff.mp hrest
          cases variadic with
          | true => cases hvariadic
          | false => simp
      | cons next others =>
          refine iff_of_false ?_ ?_
          · simp
          · rintro ⟨-, hone⟩
            have hellipsis : (if variadic then ["...".toList] else []).length =
                variadic.toNat := by
              cases variadic <;> rfl
            have hlength := congrArg List.length hrest
            rw [List.length_append, hellipsis, List.length_cons] at hlength
            rw [List.length_cons] at hone
            omega

/-- There is a comma if and only if some parameter list has two entries. -/
theorem comma_suffix_iff (t : CType) (passedAPtr : Bool) :
    ',' ∉ t.varspecSuffix passedAPtr ↔ Flat t := by
  induction t using induct generalizing passedAPtr with
  | named name => exact iff_of_true (by simp [varspecSuffix]) (.named name)
  | pointer target qualifiers ih =>
      rw [varspecSuffix, ih]
      constructor
      · exact .pointer
      · intro h
        cases h with
        | pointer h => exact h
  | array element size ih =>
      have hsize : ',' ∉ (size.map (Nat.toDigits 10)).getD [] := by
        cases size with
        | none => decide
        | some n => exact not_mem_toDigits (by norm_num) (by norm_num) (by decide)
      have hsuffix : ',' ∉ (array element size).varspecSuffix passedAPtr ↔
          ',' ∉ element.varspecSuffix false := by
        cases passedAPtr <;> simp [varspecSuffix, hsize]
      rw [hsuffix, ih]
      constructor
      · exact .array
      · intro h
        cases h with
        | array h => exact h
  | function result parameters variadic ih ihparameters =>
      have hsuffix : ',' ∉ (function result parameters variadic).varspecSuffix passedAPtr ↔
          ',' ∉ printArgs (texts parameters) variadic ∧ ',' ∉ result.varspecSuffix false := by
        cases passedAPtr <;> simp [varspecSuffix]
      have hparameters : (∀ p ∈ texts parameters, ',' ∉ p) ↔ ∀ p ∈ parameters, Flat p := by
        rw [texts_eq, List.forall_mem_map]
        refine forall₂_congr ?_
        intro p hp
        rw [comma_text_iff, ihparameters p hp]
      rw [hsuffix, ih, comma_printArgs_iff, hparameters, texts_eq, List.length_map]
      constructor
      · rintro ⟨⟨hflat, hone⟩, hresult⟩
        exact .function hresult hflat hone
      · intro h
        cases h with
        | function hresult hflat hone => exact ⟨⟨hflat, hone⟩, hresult⟩

theorem comma_iff_flat (t : CType) : ',' ∉ t.text ↔ Flat t := by
  rw [comma_text_iff, comma_suffix_iff]

end CType

end InMemoryFuzzing.Gdb

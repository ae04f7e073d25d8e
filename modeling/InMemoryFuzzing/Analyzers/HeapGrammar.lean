import InMemoryFuzzing.Analyzers.HeapLog
import InMemoryFuzzing.Base.Collect
import Mathlib.Data.List.Induction

/-!
# The grammar of an allocation line

What makes a line of the log an allocation, said of its text: the name in front of the first
colon, the arguments between `args=[` and the next bracket, and the backtrace between `bt=[`
and the next bracket. `readLine_some_iff` and `readLine_none_iff`: the reader of the analyzer
accepts these lines and no others.
-/

namespace InMemoryFuzzing.Analyzers

open Base Platform

/-! ## The grammar -/

/-- The name in front of the first colon, in any case and with any white space around it. -/
def HasName (line name : List Char) : Prop :=
  ∃ front back, line = front ++ ':' :: back ∧ ':' ∉ front ∧ DotNet.toLower (DotNet.trim front) = name

/-- `text` stands between the first `word` of the line and the next bracket. -/
def InBrackets (word line text : List Char) : Prop :=
  ∃ front back, FirstAt word line front (text ++ ']' :: back) ∧ ']' ∉ text

/-- If the word is in the line, there is a bracket behind it. -/
def Closed (word line : List Char) : Prop := word <:+: line → ∃ text, InBrackets word line text

/-- Of the arguments, with blanks between them, the last one with this key has this value. -/
def HasArgument (text key value : List Char) : Prop :=
  ∃ before after, DotNet.split text = before ++ (key ++ '=' :: value) :: after ∧
    ∀ argument ∈ after, ¬key ++ ['='] <+: argument

/-- `0x` and hexadecimal digits. -/
def IsAddress (text : List Char) (address : UInt64) : Prop :=
  ∃ x digits, text = '0' :: x :: digits ∧ (x = 'x' ∨ x = 'X') ∧
    DotNet.uint64TryParseHex digits = some address

/-- An address, or a text without `0x` that is a decimal number. -/
inductive IsNumber (text : List Char) : UInt64 → Prop
  | address {n : UInt64} (h : IsAddress text n) : IsNumber text n
  | decimal {n : UInt64} (hplain : startsWith0x text = false)
      (h : DotNet.uint64TryParse text = some n) : IsNumber text n

/-- The line has the argument, and it is this number. -/
def NumberArgument (line key : List Char) (n : UInt64) : Prop :=
  ∃ text value, InBrackets "args=[".toList line text ∧ HasArgument text key value ∧ IsNumber value n

/-- The words of a backtrace that are addresses, in order. -/
inductive Addresses : List (List Char) → List UInt64 → Prop
  | nil : Addresses [] []
  | address {word : List Char} {words : List (List Char)} {ip : UInt64} {backtrace : List UInt64}
      (h : IsAddress word ip) (hrest : Addresses words backtrace) :
      Addresses (word :: words) (ip :: backtrace)
  | other {word : List Char} {words : List (List Char)} {backtrace : List UInt64}
      (h : ∀ ip, ¬IsAddress word ip) (hrest : Addresses words backtrace) :
      Addresses (word :: words) backtrace

/-- The backtrace of a line; without `bt=[` it is empty. -/
inductive HasBacktrace (line : List Char) : List UInt64 → Prop
  | brackets {text : List Char} {backtrace : List UInt64} (h : InBrackets "bt=[".toList line text)
      (haddresses : Addresses (DotNet.split text) backtrace) : HasBacktrace line backtrace
  | missing (h : ¬"bt=[".toList <:+: line) : HasBacktrace line []

/-- A line that stands for a range. -/
inductive AllocationLine (line : List Char) : RangeInfo → Prop
  | malloc {address size : UInt64} {backtrace : List UInt64}
      (hname : HasName line "malloc".toList ∨ HasName line "realloc".toList)
      (haddress : NumberArgument line "return".toList address)
      (hsize : NumberArgument line "size".toList size) (hbacktrace : HasBacktrace line backtrace) :
      AllocationLine line ⟨address, size, backtrace⟩
  | calloc {address size num : UInt64} {backtrace : List UInt64}
      (hname : HasName line "calloc".toList)
      (haddress : NumberArgument line "return".toList address)
      (hsize : NumberArgument line "size".toList size)
      (hnum : NumberArgument line "num".toList num) (hbacktrace : HasBacktrace line backtrace) :
      AllocationLine line ⟨address, size * num, backtrace⟩

/-- The line has one of the names of the allocating functions. -/
def NamesAllocation (line : List Char) : Prop :=
  HasName line "malloc".toList ∨ HasName line "realloc".toList ∨ HasName line "calloc".toList

/-- A line that stands for no range: it is no allocation, and if it names one its brackets are
closed. -/
structure OtherLine (line : List Char) : Prop where
  closed : NamesAllocation line → Closed "args=[".toList line ∧ Closed "bt=[".toList line
  noRange : ∀ range, ¬AllocationLine line range

/-! ## Words and brackets -/

theorem toLower_eq {c d : Char} (h : c.toLower = d) :
    c = d ∨ 97 ≤ d.toNat ∧ c.toNat + 32 = d.toNat := by
  by_cases hupper : c.val ≥ 'A'.val ∧ c.val ≤ 'Z'.val
  · have hlower : c.toLower.val = c.val + 32 := congrArg Char.val (dif_pos hupper)
    right
    rw [← h]
    obtain ⟨hlow, hhigh⟩ := hupper
    rw [UInt32.le_iff_toNat_le] at hhigh
    rw [ge_iff_le, UInt32.le_iff_toNat_le] at hlow
    show 97 ≤ c.toLower.val.toNat ∧ c.val.toNat + 32 = c.toLower.val.toNat
    rw [hlower, UInt32.toNat_add]
    simp at hlow hhigh ⊢
    omega
  · have hsame : c.toLower = c := dif_neg hupper
    exact .inl (hsame.symm.trans h)

theorem startsWith0x_iff {text : List Char} :
    startsWith0x text = true ↔ ∃ x digits, text = '0' :: x :: digits ∧ (x = 'x' ∨ x = 'X') := by
  rw [startsWith0x, decide_eq_true_eq]
  constructor
  · intro h
    have hlength := congrArg List.length h
    match text with
    | [] | [c] => simp [DotNet.toLower] at hlength
    | z :: x :: digits =>
        obtain ⟨hz, hrest⟩ := List.cons_eq_cons.mp (show [z.toLower, x.toLower] = ['0', 'x'] from h)
        obtain ⟨hx, -⟩ := List.cons_eq_cons.mp hrest
        have hzero : z = '0' := by
          rcases toLower_eq hz with hz | ⟨hlow, -⟩
          · exact hz
          · exact absurd hlow (by decide)
        have hx : x = 'x' ∨ x = 'X' := by
          rcases toLower_eq hx with hx | ⟨-, hx⟩
          · exact .inl hx
          · right
            apply Char.toNat_inj.mp
            have hvalue : 'x'.toNat = 'X'.toNat + 32 := rfl
            omega
        exact ⟨x, digits, by rw [hzero], hx⟩
  · rintro ⟨x, digits, rfl, rfl | rfl⟩ <;> rfl

theorem parseAddress_eq_some_iff {text : List Char} {address : UInt64} :
    parseAddress text = some address ↔ IsAddress text address := by
  rw [parseAddress, IsAddress]
  constructor
  · intro h
    split at h
    · rename_i hstarts
      obtain ⟨x, digits, rfl, hx⟩ := startsWith0x_iff.mp hstarts
      exact ⟨x, digits, rfl, hx, h⟩
    · cases h
  · rintro ⟨x, digits, rfl, hx, h⟩
    rw [if_pos (startsWith0x_iff.mpr ⟨x, digits, rfl, hx⟩)]
    exact h

theorem bracketed_eq_none_iff {word line : List Char} :
    bracketed word line = none ↔ ¬word <:+: line := by
  rw [bracketed, Option.map_eq_none_iff, behind_eq_none_iff]

theorem bracketed_eq_ok_iff {word line text : List Char} :
    bracketed word line = some (.ok text) ↔ InBrackets word line text := by
  rw [bracketed, Option.map_eq_some_iff]
  constructor
  · rintro ⟨rest, hbehind, hcut⟩
    obtain ⟨front, hfirst⟩ := behind_eq_some_iff.mp hbehind
    split at hcut
    · rename_i text' back htext
      cases hcut
      obtain ⟨rfl, hnot⟩ := cutAt_eq_some_iff.mp htext
      exact ⟨front, back, hfirst, hnot⟩
    · cases hcut
  · rintro ⟨front, back, hfirst, hnot⟩
    refine ⟨text ++ ']' :: back, behind_eq_some_iff.mpr ⟨front, hfirst⟩, ?_⟩
    rw [cutAt_append hnot]

/-- The reader raises when a bracket is missing. -/
theorem bracketed_raises_iff {word line : List Char} :
    (∃ raised, bracketed word line = some (.error raised)) ↔ ¬Closed word line := by
  cases h : bracketed word line with
  | none =>
      have hnot := bracketed_eq_none_iff.mp h
      simp [Closed, hnot]
  | some result =>
      have hword : word <:+: line := by
        by_contra hnot
        rw [bracketed_eq_none_iff.mpr hnot] at h
        cases h
      cases result with
      | error raised =>
          have hopen : ∀ text, ¬InBrackets word line text := by
            intro text htext
            rw [bracketed_eq_ok_iff.mpr htext] at h
            cases h
          simp [Closed, hword, hopen]
      | ok text =>
          have hclosed := bracketed_eq_ok_iff.mp h
          have : Closed word line := fun _ => ⟨text, hclosed⟩
          simp [this]

/-! ## Arguments -/

theorem addArgument_apply (arguments : Arguments) {key : List Char} (hkey : '=' ∉ key)
    (argument : List Char) (value : List Char) :
    addArgument arguments argument key = some value ↔
      argument = key ++ '=' :: value ∨
        ¬key ++ ['='] <+: argument ∧ arguments key = some value := by
  have hfront : ∀ v, key ++ ['='] <+: key ++ '=' :: v := fun v =>
    ⟨v, by rw [List.append_assoc]; rfl⟩
  rw [addArgument]
  cases hcut : cutAt '=' argument with
  | none =>
      have hnot := cutAt_eq_none_iff.mp hcut
      have hother : ¬key ++ ['='] <+: argument := by
        rintro ⟨v, rfl⟩
        exact hnot (by simp)
      have hne : argument ≠ key ++ '=' :: value := by
        rintro rfl
        exact hother (hfront value)
      simp [hother, hne]
  | some pair =>
      obtain ⟨key', value'⟩ := pair
      obtain ⟨rfl, hkey'⟩ := cutAt_eq_some_iff.mp hcut
      simp only [Arguments.set]
      by_cases hsame : key = key'
      · subst hsame
        simp [hfront value', eq_comm]
      · have hother : ¬key ++ ['='] <+: key' ++ '=' :: value' := by
          rintro ⟨v, hv⟩
          have hcut' := cutAt_append hkey v
          rw [show key ++ '=' :: v = key' ++ '=' :: value' by rw [← hv, List.append_assoc]; rfl,
            hcut] at hcut'
          cases hcut'
          exact hsame rfl
        have hne : key' ++ '=' :: value' ≠ key ++ '=' :: value := by
          intro heq
          exact hother (heq ▸ hfront value)
        simp [hsame, hother, hne]

theorem foldl_addArgument_iff {key value : List Char} (hkey : '=' ∉ key)
    (words : List (List Char)) (arguments : Arguments) :
    words.foldl addArgument arguments key = some value ↔
      (∃ before after, words = before ++ (key ++ '=' :: value) :: after ∧
        ∀ argument ∈ after, ¬key ++ ['='] <+: argument) ∨
      (∀ argument ∈ words, ¬key ++ ['='] <+: argument) ∧ arguments key = some value := by
  induction words using List.reverseRecOn with
  | nil => simp
  | append_singleton words word ih =>
      rw [List.foldl_append, List.foldl_cons, List.foldl_nil, addArgument_apply _ hkey, ih]
      constructor
      · rintro (rfl | ⟨hword, ⟨before, after, rfl, hafter⟩ | ⟨hwords, harguments⟩⟩)
        · exact .inl ⟨words, [], rfl, by simp⟩
        · refine .inl ⟨before, after ++ [word], by simp, ?_⟩
          rw [List.forall_mem_append]
          exact ⟨hafter, by simpa using hword⟩
        · refine .inr ⟨?_, harguments⟩
          rw [List.forall_mem_append]
          exact ⟨hwords, by simpa using hword⟩
      · rintro (⟨before, after, hwords, hafter⟩ | ⟨hwords, harguments⟩)
        · rcases List.eq_nil_or_concat after with rfl | ⟨after', last, rfl⟩
          · left
            exact (List.append_inj' hwords rfl).2 |> List.cons.inj |>.1
          · right
            rw [List.concat_eq_append, List.forall_mem_append] at hafter
            rw [List.concat_eq_append, ← List.cons_append, ← List.append_assoc] at hwords
            obtain ⟨hfront, hlast⟩ := List.append_inj' hwords rfl
            obtain rfl := (List.cons.inj hlast).1
            exact ⟨hafter.2 word (List.mem_singleton.mpr rfl), .inl ⟨before, after', hfront, hafter.1⟩⟩
        · rw [List.forall_mem_append] at hwords
          exact .inr ⟨hwords.2 word (List.mem_singleton.mpr rfl), .inr ⟨hwords.1, harguments⟩⟩

/-- The dictionary of a line, if no bracket is missing. -/
theorem extractArguments_apply {line key value : List Char} {arguments : Arguments}
    (hkey : '=' ∉ key) (h : extractArguments line = .ok arguments) :
    arguments key = some value ↔
      ∃ text, InBrackets "args=[".toList line text ∧ HasArgument text key value := by
  rw [extractArguments] at h
  split at h
  · rename_i hnone
    cases h
    constructor
    · intro hvalue
      cases hvalue
    · rintro ⟨text, htext, -⟩
      rw [bracketed_eq_ok_iff.mpr htext] at hnone
      cases hnone
  · rename_i result hresult
    obtain ⟨text, rfl, harguments⟩ := map_ok_iff.mp h
    rw [← harguments, foldl_addArgument_iff hkey]
    constructor
    · rintro (hargument | ⟨-, hnothing⟩)
      · exact ⟨text, bracketed_eq_ok_iff.mp hresult, hargument⟩
      · cases hnothing
    · rintro ⟨text', htext', hargument⟩
      rw [bracketed_eq_ok_iff.mpr htext'] at hresult
      cases hresult
      exact .inl hargument

theorem extractArguments_ok_iff {line : List Char} :
    (∃ arguments, extractArguments line = .ok arguments) ↔ Closed "args=[".toList line := by
  rw [← not_iff_not, ← bracketed_raises_iff, extractArguments]
  cases bracketed "args=[".toList line with
  | none => simp
  | some result => cases result <;> simp [Except.map]

theorem parseNumber_eq_some_iff {line : List Char} {arguments : Arguments} {name : String}
    (hname : '=' ∉ name.toList) (h : extractArguments line = .ok arguments) {n : UInt64} :
    parseNumber name arguments = some n ↔ NumberArgument line name.toList n := by
  have hnumber : ∀ value : List Char, (if startsWith0x value then
      DotNet.uint64TryParseHex (value.drop 2) else DotNet.uint64TryParse value) = some n ↔
        IsNumber value n := by
    intro value
    by_cases hstarts : startsWith0x value = true
    · rw [if_pos hstarts]
      constructor
      · intro hn
        exact .address (parseAddress_eq_some_iff.mp (by rw [parseAddress, if_pos hstarts, hn]))
      · rintro (haddress | ⟨hplain, -⟩)
        · have hparse := parseAddress_eq_some_iff.mpr haddress
          rwa [parseAddress, if_pos hstarts] at hparse
        · rw [hstarts] at hplain
          cases hplain
    · rw [if_neg hstarts]
      constructor
      · exact .decimal (Bool.eq_false_of_not_eq_true hstarts)
      · rintro (⟨x, digits, rfl, hx, -⟩ | ⟨-, hn⟩)
        · exact absurd (startsWith0x_iff.mpr ⟨x, digits, rfl, hx⟩) hstarts
        · exact hn
  rw [parseNumber]
  constructor
  · intro hn
    obtain ⟨value, hvalue, hn⟩ := Option.bind_eq_some_iff.mp hn
    obtain ⟨text, htext, hargument⟩ := (extractArguments_apply hname h).mp hvalue
    exact ⟨text, value, htext, hargument, (hnumber value).mp hn⟩
  · rintro ⟨text, value, htext, hargument, hn⟩
    rw [(extractArguments_apply hname h).mpr ⟨text, htext, hargument⟩]
    exact (hnumber value).mpr hn

/-! ## Backtraces -/

theorem addresses_iff {words : List (List Char)} {backtrace : List UInt64} :
    (words.filter fun w => !w.isEmpty).filterMap parseAddress = backtrace ↔
      Addresses words backtrace := by
  have hempty : ∀ words : List (List Char), (words.filter fun w => !w.isEmpty).filterMap parseAddress =
      words.filterMap parseAddress := by
    intro words
    induction words with
    | nil => rfl
    | cons word words ih =>
        cases word with
        | nil => exact ih
        | cons c word => rw [List.filter_cons_of_pos rfl, List.filterMap_cons, List.filterMap_cons, ih]
  rw [hempty]
  constructor
  · rintro rfl
    induction words with
    | nil => exact .nil
    | cons word words ih =>
        cases haddress : parseAddress word with
        | none =>
            rw [List.filterMap_cons_none haddress]
            refine .other (fun ip hip => ?_) ih
            rw [parseAddress_eq_some_iff.mpr hip] at haddress
            cases haddress
        | some ip =>
            rw [List.filterMap_cons_some haddress]
            exact .address (parseAddress_eq_some_iff.mp haddress) ih
  · intro h
    induction h with
    | nil => rfl
    | address hip _ ih => rw [List.filterMap_cons_some (parseAddress_eq_some_iff.mpr hip), ih]
    | @other word _ _ hno _ ih =>
        have hnone : parseAddress word = none := by
          cases haddress : parseAddress word with
          | none => rfl
          | some ip => exact absurd (parseAddress_eq_some_iff.mp haddress) (hno ip)
        rw [List.filterMap_cons_none hnone, ih]

theorem extractBacktrace_eq_ok_iff {line : List Char} {backtrace : List UInt64} :
    extractBacktrace line = .ok backtrace ↔ HasBacktrace line backtrace := by
  rw [extractBacktrace]
  constructor
  · intro h
    split at h
    · rename_i hnone
      cases h
      exact .missing (bracketed_eq_none_iff.mp hnone)
    · rename_i result hresult
      obtain ⟨text, rfl, hbacktrace⟩ := map_ok_iff.mp h
      exact .brackets (bracketed_eq_ok_iff.mp hresult) (addresses_iff.mp hbacktrace)
  · rintro (⟨htext, haddresses⟩ | hnot)
    · rw [bracketed_eq_ok_iff.mpr htext]
      exact congrArg Except.ok (addresses_iff.mpr haddresses)
    · rw [bracketed_eq_none_iff.mpr hnot]

theorem extractBacktrace_ok_iff {line : List Char} :
    (∃ backtrace, extractBacktrace line = .ok backtrace) ↔ Closed "bt=[".toList line := by
  rw [← not_iff_not, ← bracketed_raises_iff, extractBacktrace]
  cases bracketed "bt=[".toList line with
  | none => simp
  | some result => cases result <;> simp [Except.map]

/-! ## Lines -/

theorem lhMalloc_eq_some_iff {line : List Char} {range : RangeInfo} :
    lhMalloc line = .ok (some range) ↔ NumberArgument line "return".toList range.startAddress ∧
      NumberArgument line "size".toList range.size ∧ HasBacktrace line range.backtrace := by
  constructor
  · intro h
    obtain ⟨bt, hbt, h⟩ := bind_ok.mp h
    obtain ⟨arguments, harguments, h⟩ := bind_ok.mp h
    obtain ⟨address, haddress, h⟩ := Option.bind_eq_some_iff.mp (Except.ok.inj h)
    obtain ⟨size, hsize, h⟩ := Option.bind_eq_some_iff.mp h
    cases h
    exact ⟨(parseNumber_eq_some_iff (by simp) harguments).mp haddress,
      (parseNumber_eq_some_iff (by simp) harguments).mp hsize, extractBacktrace_eq_ok_iff.mp hbt⟩
  · rintro ⟨haddress, hsize, hbt⟩
    obtain ⟨arguments, harguments⟩ := extractArguments_ok_iff.mpr fun _ =>
      ⟨haddress.choose, haddress.choose_spec.choose_spec.1⟩
    rw [lhMalloc, extractBacktrace_eq_ok_iff.mpr hbt, ok_bind, harguments, ok_bind,
      (parseNumber_eq_some_iff (by simp) harguments).mpr haddress,
      (parseNumber_eq_some_iff (by simp) harguments).mpr hsize]
    rfl

theorem lhCalloc_eq_some_iff {line : List Char} {range : RangeInfo} :
    lhCalloc line = .ok (some range) ↔ NumberArgument line "return".toList range.startAddress ∧
      (∃ size num, range.size = size * num ∧ NumberArgument line "size".toList size ∧
        NumberArgument line "num".toList num) ∧ HasBacktrace line range.backtrace := by
  constructor
  · intro h
    obtain ⟨bt, hbt, h⟩ := bind_ok.mp h
    obtain ⟨arguments, harguments, h⟩ := bind_ok.mp h
    obtain ⟨address, haddress, h⟩ := Option.bind_eq_some_iff.mp (Except.ok.inj h)
    obtain ⟨size, hsize, h⟩ := Option.bind_eq_some_iff.mp h
    obtain ⟨num, hnum, h⟩ := Option.bind_eq_some_iff.mp h
    cases h
    exact ⟨(parseNumber_eq_some_iff (by simp) harguments).mp haddress,
      ⟨size, num, rfl, (parseNumber_eq_some_iff (by simp) harguments).mp hsize,
        (parseNumber_eq_some_iff (by simp) harguments).mp hnum⟩, extractBacktrace_eq_ok_iff.mp hbt⟩
  · rintro ⟨haddress, ⟨size, num, hproduct, hsize, hnum⟩, hbt⟩
    obtain ⟨arguments, harguments⟩ := extractArguments_ok_iff.mpr fun _ =>
      ⟨haddress.choose, haddress.choose_spec.choose_spec.1⟩
    rw [lhCalloc, extractBacktrace_eq_ok_iff.mpr hbt, ok_bind, harguments, ok_bind,
      (parseNumber_eq_some_iff (by simp) harguments).mpr haddress,
      (parseNumber_eq_some_iff (by simp) harguments).mpr hsize,
      (parseNumber_eq_some_iff (by simp) harguments).mpr hnum]
    obtain ⟨address, total, backtrace⟩ := range
    cases hproduct
    rfl

/-- A handler returns if no bracket is missing. -/
theorem lineHandlers_ok_iff {name line : List Char}
    {handler : List Char → Except DotNet.NetException (Option RangeInfo)}
    (h : lineHandlers name = some handler) :
    (∃ range, handler line = .ok range) ↔
      Closed "args=[".toList line ∧ Closed "bt=[".toList line := by
  have hextracted : ∀ f : List UInt64 → Arguments → Option RangeInfo,
      (∃ range, (extractBacktrace line >>= fun bt => extractArguments line >>= fun arguments =>
        .ok (f bt arguments)) = .ok range) ↔
        Closed "args=[".toList line ∧ Closed "bt=[".toList line := by
    intro f
    rw [← extractArguments_ok_iff, ← extractBacktrace_ok_iff]
    constructor
    · rintro ⟨range, hrange⟩
      obtain ⟨bt, hbt, hrange⟩ := bind_ok.mp hrange
      obtain ⟨arguments, harguments, -⟩ := bind_ok.mp hrange
      exact ⟨⟨arguments, harguments⟩, bt, hbt⟩
    · rintro ⟨⟨arguments, harguments⟩, bt, hbt⟩
      exact ⟨f bt arguments, by rw [hbt, ok_bind, harguments, ok_bind]⟩
  rw [lineHandlers] at h
  split at h
  · cases h
    exact hextracted _
  split at h
  · cases h
    exact hextracted _
  split at h
  · cases h
    exact hextracted _
  · cases h

/-- The name of a line, as the reader finds it. -/
theorem cutAt_hasName_iff {line front back name : List Char} (h : cutAt ':' line = some (front, back)) :
    HasName line name ↔ DotNet.toLower (DotNet.trim front) = name := by
  obtain ⟨rfl, hfront⟩ := cutAt_eq_some_iff.mp h
  constructor
  · rintro ⟨front', back', hline, hfront', hname⟩
    have hcut := cutAt_append hfront' back'
    rw [← hline, h] at hcut
    cases hcut
    exact hname
  · intro hname
    exact ⟨front, back, rfl, hfront, hname⟩

/-- The reader takes a range from a line exactly when the line stands for it. -/
theorem readLine_some_iff {line : List Char} {range : RangeInfo} :
    readLine line = .ok (some range) ↔ AllocationLine line range := by
  rw [readLine]
  cases hcut : cutAt ':' line with
  | none =>
      have hnoName : ∀ name, ¬HasName line name := by
        rintro name ⟨front, back, rfl, -, -⟩
        exact cutAt_eq_none_iff.mp hcut (by simp)
      constructor
      · intro h
        cases h
      · rintro (⟨hname | hname, -⟩ | ⟨hname, -⟩) <;> exact absurd hname (hnoName _)
  | some pair =>
      obtain ⟨front, back⟩ := pair
      have hname : ∀ name, HasName line name ↔ DotNet.toLower (DotNet.trim front) = name :=
        fun _ => cutAt_hasName_iff hcut
      simp only [lineHandlers]
      constructor
      · intro h
        split at h
        · cases h
        · rename_i handler hhandler
          split at hhandler
          · rename_i hmalloc
            cases hhandler
            obtain ⟨haddress, hsize, hbt⟩ := lhMalloc_eq_some_iff.mp h
            exact .malloc (.inl ((hname _).mpr hmalloc)) haddress hsize hbt
          split at hhandler
          · rename_i hrealloc
            cases hhandler
            obtain ⟨haddress, hsize, hbt⟩ := lhMalloc_eq_some_iff.mp h
            exact .malloc (.inr ((hname _).mpr hrealloc)) haddress hsize hbt
          split at hhandler
          · rename_i hcalloc
            cases hhandler
            obtain ⟨haddress, ⟨size, num, hproduct, hsize, hnum⟩, hbt⟩ := lhCalloc_eq_some_iff.mp h
            obtain ⟨address, total, backtrace⟩ := range
            cases hproduct
            exact .calloc ((hname _).mpr hcalloc) haddress hsize hnum hbt
          · cases hhandler
      · rintro (⟨hnamed | hnamed, haddress, hsize, hbt⟩ | ⟨hnamed, haddress, hsize, hnum, hbt⟩)
        · rw [(hname _).mp hnamed]
          exact lhMalloc_eq_some_iff.mpr ⟨haddress, hsize, hbt⟩
        · rw [(hname _).mp hnamed]
          exact lhMalloc_eq_some_iff.mpr ⟨haddress, hsize, hbt⟩
        · rw [(hname _).mp hnamed]
          exact lhCalloc_eq_some_iff.mpr ⟨haddress, ⟨_, _, rfl, hsize, hnum⟩, hbt⟩

/-- The reader gets through a line that names no allocation, or whose brackets are closed. -/
theorem readLine_ok_iff {line : List Char} :
    (∃ range, readLine line = .ok range) ↔
      (NamesAllocation line → Closed "args=[".toList line ∧ Closed "bt=[".toList line) := by
  rw [readLine]
  cases hcut : cutAt ':' line with
  | none =>
      have hnoName : ∀ name, ¬HasName line name := by
        rintro name ⟨front, back, rfl, -, -⟩
        exact cutAt_eq_none_iff.mp hcut (by simp)
      simp [NamesAllocation, hnoName]
  | some pair =>
      obtain ⟨front, back⟩ := pair
      have hname : ∀ name, HasName line name ↔ DotNet.toLower (DotNet.trim front) = name :=
        fun _ => cutAt_hasName_iff hcut
      cases hhandler : lineHandlers (DotNet.toLower (DotNet.trim front)) with
      | none =>
          have hother : ¬NamesAllocation line := by
            rw [NamesAllocation, hname, hname, hname]
            rintro (hnamed | hnamed | hnamed) <;> rw [hnamed] at hhandler <;> cases hhandler
          simp [hother, hhandler]
      | some handler =>
          have hnamed : NamesAllocation line := by
            rw [NamesAllocation, hname, hname, hname]
            rw [lineHandlers] at hhandler
            split at hhandler
            · rename_i hmalloc
              exact .inl hmalloc
            split at hhandler
            · rename_i hrealloc
              exact .inr (.inl hrealloc)
            split at hhandler
            · rename_i hcalloc
              exact .inr (.inr hcalloc)
            · cases hhandler
          simp only [hhandler, hnamed, forall_const]
          exact lineHandlers_ok_iff hhandler

/-- The reader takes no range from the other lines. -/
theorem readLine_none_iff {line : List Char} : readLine line = .ok none ↔ OtherLine line := by
  constructor
  · intro h
    refine ⟨readLine_ok_iff.mp ⟨none, h⟩, fun range hrange => ?_⟩
    rw [readLine_some_iff.mpr hrange] at h
    cases h
  · rintro ⟨hclosed, hnoRange⟩
    obtain ⟨range, hrange⟩ := readLine_ok_iff.mpr hclosed
    cases range with
    | none => exact hrange
    | some range => exact absurd (readLine_some_iff.mp hrange) (hnoRange range)

end InMemoryFuzzing.Analyzers

import InMemoryFuzzing.Analyzers.HeapGrammar

/-!
# The reader of the allocation log finds the allocated ranges

`rangeInfos_logText`: for every sequence of calls the printed text is read back
as the ranges of its allocations, in order. `rangeInfos_realloc_iff`: a
reallocation is printed under a wrong name, and is found only if the memory it
was called with happens to contain a line that the library should have printed.
-/

namespace InMemoryFuzzing.Analyzers

open Base Platform

/-! ## Parts of a line -/

theorem formatP_of_ne_zero {p : UInt64} (h : p ≠ 0) :
    CLib.formatP p = "0x".toList ++ Nat.toDigits 16 p.toNat := if_neg h

theorem not_mem_formatLu {c : Char} (hc : (digitValue c).all (10 ≤ ·) = true) (n : UInt64) :
    c ∉ CLib.formatLu n := not_mem_toDigits (by omega) (by omega) hc

theorem not_mem_formatP {c : Char} (hc : (digitValue c).all (16 ≤ ·) = true) (hx : c ≠ 'x')
    {p : UInt64}
    (hp : p ≠ 0) : c ∉ CLib.formatP p := by
  rw [formatP_of_ne_zero hp, List.mem_append, not_or]
  refine ⟨?_, not_mem_toDigits (by omega) (by omega) hc⟩
  intro hmem
  rcases List.mem_cons.mp (show c ∈ ['0', 'x'] from hmem) with rfl | hmem
  · cases hc
  · exact hx (List.mem_singleton.mp hmem)

theorem startsWith0x_formatP {p : UInt64} (h : p ≠ 0) : startsWith0x (CLib.formatP p) = true := by
  rw [formatP_of_ne_zero h]
  rfl

theorem drop_formatP {p : UInt64} (h : p ≠ 0) :
    (CLib.formatP p).drop 2 = Nat.toDigits 16 p.toNat := by
  rw [formatP_of_ne_zero h]
  rfl

theorem parseAddress_formatP {p : UInt64} (h : p ≠ 0) : parseAddress (CLib.formatP p) = some p := by
  rw [parseAddress, if_pos (startsWith0x_formatP h), drop_formatP h,
    DotNet.uint64TryParseHex_toDigits]

theorem startsWith0x_formatLu (n : UInt64) : startsWith0x (CLib.formatLu n) = false := by
  rw [startsWith0x, decide_eq_false_iff_not]
  intro h
  have hx : 'x' ∈ DotNet.toLower ((CLib.formatLu n).take 2) := by
    rw [h]
    decide
  obtain ⟨c, hc, hlower⟩ := List.mem_map.mp hx
  obtain ⟨d, hd, rfl⟩ := mem_toDigits (by omega) (List.mem_of_mem_take hc)
  interval_cases d <;> exact absurd hlower (by decide)

/-! ## The backtrace -/

/-- The text of a backtrace. -/
def backtraceText (backtrace : List UInt64) : List Char :=
  (backtrace.map fun ip => CLib.formatP ip ++ " ".toList).flatten

theorem splitOn_backtraceText {backtrace : List UInt64} (h : ∀ ip ∈ backtrace, ip ≠ 0) :
    (backtraceText backtrace).splitOn ' ' = backtrace.map CLib.formatP ++ [[]] := by
  induction backtrace with
  | nil => rfl
  | cons ip rest ih =>
      rw [List.forall_mem_cons] at h
      have hblank : ' ' ∉ CLib.formatP ip := not_mem_formatP rfl (by simp) h.1
      have htext : backtraceText (ip :: rest) = CLib.formatP ip ++ ' ' :: backtraceText rest := by
        show (CLib.formatP ip ++ [' ']) ++ backtraceText rest = _
        rw [List.append_assoc]
        rfl
      rw [htext, List.splitOn_append_cons_self_of_not_mem hblank, ih h.2]
      rfl

theorem parse_backtraceText {backtrace : List UInt64} (h : ∀ ip ∈ backtrace, ip ≠ 0) :
    (DotNet.splitRemoveEmpty (backtraceText backtrace)).filterMap parseAddress = backtrace := by
  rw [DotNet.splitRemoveEmpty, DotNet.split, splitOn_backtraceText h, List.filter_append]
  rw [show [([] : List Char)].filter (fun w => !w.isEmpty) = [] from rfl, List.append_nil]
  induction backtrace with
  | nil => rfl
  | cons ip rest ih =>
      rw [List.forall_mem_cons] at h
      have hne : (!(CLib.formatP ip).isEmpty) = true := by
        rw [formatP_of_ne_zero h.1]
        rfl
      rw [List.map_cons, List.filter_cons, if_pos hne, List.filterMap_cons,
        parseAddress_formatP h.1, ih h.2]

/-! ## The arguments -/

/-- `key=value` texts with blanks between them. -/
def fieldsText (fields : List (List Char × List Char)) : List Char :=
  [' '].intercalate (fields.map fun f => f.1 ++ '=' :: f.2)

/-- The dictionary of some fields; the last value of a key counts. -/
def fieldsArguments (fields : List (List Char × List Char)) : Arguments :=
  fields.foldl (fun arguments f => arguments.set f.1 f.2) fun _ => none

/-- Keys and values that cannot be mistaken for separators. -/
def PlainFields (fields : List (List Char × List Char)) : Prop :=
  ∀ f ∈ fields, '=' ∉ f.1 ∧ ' ' ∉ f.1 ++ f.2 ∧ ']' ∉ f.1 ++ f.2

theorem foldl_addArgument {fields : List (List Char × List Char)} (h : PlainFields fields)
    (arguments : Arguments) :
    (fields.map fun f => f.1 ++ '=' :: f.2).foldl addArgument arguments =
      fields.foldl (fun arguments f => arguments.set f.1 f.2) arguments := by
  induction fields generalizing arguments with
  | nil => rfl
  | cons f rest ih =>
      obtain ⟨hhead, hrest⟩ := List.forall_mem_cons.mp h
      have hadd : addArgument arguments (f.1 ++ '=' :: f.2) = arguments.set f.1 f.2 := by
        rw [addArgument, cutAt_append hhead.1]
      rw [List.map_cons, List.foldl_cons, List.foldl_cons, hadd, ih hrest]

theorem split_fieldsText {fields : List (List Char × List Char)} (h : PlainFields fields)
    (hne : fields ≠ []) :
    DotNet.split (fieldsText fields) = fields.map fun f => f.1 ++ '=' :: f.2 := by
  apply List.splitOn_intercalate
  · intro piece hpiece
    obtain ⟨f, hf, rfl⟩ := List.mem_map.mp hpiece
    have := (h f hf).2.1
    simpa using this
  · simpa using hne

theorem not_mem_fieldsText {fields : List (List Char × List Char)} (h : PlainFields fields) :
    ']' ∉ fieldsText fields := by
  induction fields with
  | nil => simp [fieldsText]
  | cons f rest ih =>
      obtain ⟨hhead, hrest⟩ := List.forall_mem_cons.mp h
      have hpiece : ']' ∉ f.1 ++ '=' :: f.2 := by simpa using hhead.2.2
      cases rest with
      | nil => simpa [fieldsText] using hpiece
      | cons g rest =>
          show ']' ∉ [' '].intercalate ((f.1 ++ '=' :: f.2) :: (g.1 ++ '=' :: g.2) :: _)
          rw [List.intercalate_cons_cons, List.mem_append, List.mem_append, not_or, not_or]
          exact ⟨⟨hpiece, by simp⟩, ih hrest⟩

/-! ## A logged line -/

/-- A line of the log, without the line feed. -/
def logLine (calledFunction arguments : List Char) (backtrace : List UInt64) : List Char :=
  calledFunction ++ (": args=[".toList ++ (arguments ++ ("] bt=[".toList ++
    (backtraceText backtrace ++ "]".toList))))

theorem outputMemAllocation_eq (calledFunction arguments : List Char) (backtrace : List UInt64) :
    outputMemAllocation calledFunction arguments backtrace =
      logLine calledFunction arguments backtrace ++ ['\n'] := by
  simp only [outputMemAllocation, logLine, List.append_assoc]
  rfl

/-- The backtrace of a line whose arguments end in a pointer: the digits of the
pointer may contain the first letter of `bt=[`, but not the second. -/
theorem extractBacktrace_line {seg hex : List Char} (hseg : 'b' ∉ seg) (hhex : 't' ∉ hex)
    {backtrace : List UInt64} (hbt : ∀ ip ∈ backtrace, ip ≠ 0) :
    extractBacktrace
        (seg ++ (hex ++ ("] bt=[".toList ++ (backtraceText backtrace ++ "]".toList)))) =
      .ok backtrace := by
  have hbehind : behind "bt=[".toList
      (seg ++ (hex ++ ("] bt=[".toList ++ (backtraceText backtrace ++ "]".toList)))) =
      some (backtraceText backtrace ++ "]".toList) := by
    show behind ('b' :: 't' :: "=[".toList) _ = _
    rw [behind_skip_head hseg, show hex ++ ("] bt=[".toList ++ (backtraceText backtrace ++ "]".toList)) =
      hex ++ ']' :: (" bt=[".toList ++ (backtraceText backtrace ++ "]".toList)) from rfl,
      behind_skip hhex (by simp)]
    rfl
  have hbracket : ']' ∉ backtraceText backtrace := by
    intro hmem
    obtain ⟨piece, hpiece, hmem⟩ := List.mem_flatten.mp hmem
    obtain ⟨ip, hip, rfl⟩ := List.mem_map.mp hpiece
    rcases List.mem_append.mp hmem with hmem | hmem
    · exact not_mem_formatP rfl (by simp) (hbt ip hip) hmem
    · exact absurd hmem (by simp)
  have hcut : cutAt ']' (backtraceText backtrace ++ "]".toList) =
      some (backtraceText backtrace, []) :=
    cutAt_append hbracket []
  have htext : bracketed "bt=[".toList
      (seg ++ (hex ++ ("] bt=[".toList ++ (backtraceText backtrace ++ "]".toList)))) =
      some (.ok (backtraceText backtrace)) := by
    rw [bracketed, hbehind, Option.map_some, hcut]
  rw [extractBacktrace, htext]
  show Except.ok ((DotNet.splitRemoveEmpty (backtraceText backtrace)).filterMap parseAddress) = _
  rw [parse_backtraceText hbt]

/-- The arguments of a line in which `args=[` is found at its place. -/
theorem extractArguments_line {currentLine rest : List Char} {fields : List (List Char × List Char)}
    (hbehind : behind "args=[".toList currentLine = some (fieldsText fields ++ ']' :: rest))
    (h : PlainFields fields) (hne : fields ≠ []) :
    extractArguments currentLine = .ok (fieldsArguments fields) := by
  have htext : bracketed "args=[".toList currentLine = some (.ok (fieldsText fields)) := by
    rw [bracketed, hbehind, Option.map_some, cutAt_append (not_mem_fieldsText h)]
  rw [extractArguments, htext]
  show Except.ok ((DotNet.split (fieldsText fields)).foldl addArgument fun _ => none) = _
  rw [split_fieldsText h hne, foldl_addArgument h]
  rfl

theorem parseNumber_formatP {arguments : Arguments} {name : String} {p : UInt64}
    (h : arguments name.toList = some (CLib.formatP p)) (hp : p ≠ 0) :
    parseNumber name arguments = some p := by
  rw [parseNumber, h]
  show (if _ then _ else _) = _
  rw [if_pos (startsWith0x_formatP hp), drop_formatP hp, DotNet.uint64TryParseHex_toDigits]

theorem parseNumber_formatLu {arguments : Arguments} {name : String} {n : UInt64}
    (h : arguments name.toList = some (CLib.formatLu n)) :
    parseNumber name arguments = some n := by
  rw [parseNumber, h]
  show (if _ then _ else _) = _
  rw [if_neg (by rw [startsWith0x_formatLu]; exact Bool.false_ne_true)]
  exact DotNet.uint64TryParse_toDigits n

/-- The fields of an allocation. -/
def AllocCall.fields : AllocCall → List (List Char × List Char)
  | .malloc size p => [("size".toList, CLib.formatLu size), ("return".toList, CLib.formatP p)]
  | .calloc nmemb size p => [("num".toList, CLib.formatLu nmemb), ("size".toList, CLib.formatLu size),
      ("return".toList, CLib.formatP p)]
  | .free ptr => [("ptr".toList, CLib.formatP ptr)]

theorem AllocCall.arguments_eq (c : AllocCall) : c.arguments = fieldsText c.fields := by
  cases c with
  | malloc size p =>
      show "size=".toList ++ CLib.formatLu size ++ " return=".toList ++ CLib.formatP p =
        [' '].intercalate ["size".toList ++ '=' :: CLib.formatLu size,
          "return".toList ++ '=' :: CLib.formatP p]
      rw [List.intercalate_cons_cons, List.intercalate_singleton]
      simp only [List.append_assoc]
      rfl
  | calloc nmemb size p =>
      show "num=".toList ++ CLib.formatLu nmemb ++ " size=".toList ++ CLib.formatLu size ++
          " return=".toList ++ CLib.formatP p =
        [' '].intercalate ["num".toList ++ '=' :: CLib.formatLu nmemb,
          "size".toList ++ '=' :: CLib.formatLu size, "return".toList ++ '=' :: CLib.formatP p]
      rw [List.intercalate_cons_cons, List.intercalate_cons_cons, List.intercalate_singleton]
      simp only [List.append_assoc]
      rfl
  | free ptr =>
      show _ = [' '].intercalate ["ptr".toList ++ '=' :: CLib.formatP ptr]
      rw [List.intercalate_singleton]
      rfl

theorem plainFields_cons {key value : List Char} {fields : List (List Char × List Char)}
    (hkey : '=' ∉ key ∧ ' ' ∉ key ∧ ']' ∉ key) (hvalue : ' ' ∉ value ∧ ']' ∉ value)
    (h : PlainFields fields) : PlainFields ((key, value) :: fields) := by
  refine List.forall_mem_cons.mpr ⟨⟨hkey.1, ?_, ?_⟩, h⟩
  · rw [List.mem_append, not_or]
    exact ⟨hkey.2.1, hvalue.1⟩
  · rw [List.mem_append, not_or]
    exact ⟨hkey.2.2, hvalue.2⟩

/-- The name, the backtrace and the arguments of a logged allocation are found. -/
theorem extract_allocation {calledFunction seg : List Char} {fields : List (List Char × List Char)}
    {p : UInt64} {backtrace : List UInt64} (hp : p ≠ 0) (hbt : ∀ ip ∈ backtrace, ip ≠ 0)
    (hseg : fieldsText fields = seg ++ CLib.formatP p)
    (hb : 'b' ∉ calledFunction ++ ": args=[".toList ++ seg)
    (hargs : ∀ rest,
      behind "args=[".toList (calledFunction ++ (": args=[".toList ++ rest)) = some rest)
    (hplain : PlainFields fields) (hne : fields ≠ []) :
    extractBacktrace (logLine calledFunction (fieldsText fields) backtrace) = .ok backtrace ∧
      extractArguments (logLine calledFunction (fieldsText fields) backtrace) =
        .ok (fieldsArguments fields) := by
  constructor
  · have hline : logLine calledFunction (fieldsText fields) backtrace =
        (calledFunction ++ ": args=[".toList ++ seg) ++
          (CLib.formatP p ++ ("] bt=[".toList ++ (backtraceText backtrace ++ "]".toList))) := by
      rw [hseg, logLine]
      simp only [List.append_assoc]
    rw [hline]
    exact extractBacktrace_line hb (not_mem_formatP rfl (by simp) hp) hbt
  · exact extractArguments_line (hargs _) hplain hne

theorem plainFields_return {p : UInt64} (hp : p ≠ 0) :
    PlainFields [("return".toList, CLib.formatP p)] :=
  plainFields_cons (by simp)
    ⟨not_mem_formatP rfl (by simp) hp, not_mem_formatP rfl (by simp) hp⟩
    (by simp [PlainFields])

theorem plainFields_number {key : List Char} (hkey : '=' ∉ key ∧ ' ' ∉ key ∧ ']' ∉ key) (n : UInt64)
    {fields : List (List Char × List Char)} (h : PlainFields fields) :
    PlainFields ((key, CLib.formatLu n) :: fields) :=
  plainFields_cons hkey ⟨not_mem_formatLu rfl n, not_mem_formatLu rfl n⟩ h

theorem readLine_malloc (size : UInt64) {p : UInt64} (hp : p ≠ 0) {backtrace : List UInt64}
    (hbt : ∀ ip ∈ backtrace, ip ≠ 0) :
    readLine (logLine "malloc".toList (AllocCall.malloc size p).arguments backtrace) =
      .ok (some ⟨p, size, backtrace⟩) := by
  have hb : 'b' ∉ "malloc".toList ++ ": args=[".toList ++
      ("size=".toList ++ CLib.formatLu size ++ " return=".toList) := by
    simp only [List.mem_append, not_or]
    exact ⟨by simp, ⟨by simp, not_mem_formatLu rfl size⟩, by simp⟩
  obtain ⟨hbacktrace, harguments⟩ := extract_allocation hp hbt
    (show fieldsText (AllocCall.malloc size p).fields = _ from
      (AllocCall.arguments_eq (.malloc size p)).symm) hb (fun _ => rfl)
    (plainFields_number (by simp) size (plainFields_return hp)) (List.cons_ne_nil _ _)
  have haddress :
      parseNumber "return" (fieldsArguments (AllocCall.malloc size p).fields) = some p :=
    parseNumber_formatP rfl hp
  have hsize : parseNumber "size" (fieldsArguments (AllocCall.malloc size p).fields) = some size :=
    parseNumber_formatLu rfl
  rw [AllocCall.arguments_eq]
  show lhMalloc _ = _
  rw [lhMalloc, hbacktrace, harguments]
  show Except.ok _ = _
  rw [haddress, hsize]
  rfl

theorem readLine_calloc (nmemb size : UInt64) {p : UInt64} (hp : p ≠ 0) {backtrace : List UInt64}
    (hbt : ∀ ip ∈ backtrace, ip ≠ 0) :
    readLine (logLine "calloc".toList (AllocCall.calloc nmemb size p).arguments backtrace) =
      .ok (some ⟨p, size * nmemb, backtrace⟩) := by
  have hb : 'b' ∉ "calloc".toList ++ ": args=[".toList ++ ("num=".toList ++ CLib.formatLu nmemb ++
      " size=".toList ++ CLib.formatLu size ++ " return=".toList) := by
    simp only [List.mem_append, not_or]
    exact ⟨by simp, ⟨⟨⟨by simp, not_mem_formatLu rfl nmemb⟩, by simp⟩,
      not_mem_formatLu rfl size⟩, by simp⟩
  obtain ⟨hbacktrace, harguments⟩ := extract_allocation hp hbt
    (show fieldsText (AllocCall.calloc nmemb size p).fields = _ from
      (AllocCall.arguments_eq (.calloc nmemb size p)).symm) hb (fun _ => rfl)
    (plainFields_number (by simp) nmemb
      (plainFields_number (by simp) size (plainFields_return hp))) (List.cons_ne_nil _ _)
  have haddress : parseNumber "return" (fieldsArguments (AllocCall.calloc nmemb size p).fields) =
      some p := parseNumber_formatP rfl hp
  have hsize : parseNumber "size" (fieldsArguments (AllocCall.calloc nmemb size p).fields) =
      some size := parseNumber_formatLu rfl
  have hnum : parseNumber "num" (fieldsArguments (AllocCall.calloc nmemb size p).fields) =
      some nmemb := parseNumber_formatLu rfl
  rw [AllocCall.arguments_eq]
  show lhCalloc _ = _
  rw [lhCalloc, hbacktrace, harguments]
  show Except.ok _ = _
  rw [haddress, hsize, hnum]
  rfl

/-- There is no handler for a `free` line. -/
theorem readLine_free (arguments : List Char) (backtrace : List UInt64) :
    readLine (logLine "free".toList arguments backtrace) = .ok none := rfl

/-! ## The whole log -/

/-- An allocated block: its address, its size and where it was allocated. -/
structure Block where
  address : UInt64
  size : Nat
  backtrace : List UInt64

/-- The block a call allocates. -/
def LoggedCall.block (c : LoggedCall) : Option Block :=
  match c.call with
  | .malloc size p => some ⟨p, size.toNat, c.backtrace⟩
  | .calloc nmemb size p => some ⟨p, nmemb.toNat * size.toNat, c.backtrace⟩
  | .free _ => none

/-- The block a range stands for. -/
def RangeInfo.block (r : RangeInfo) : Block := ⟨r.startAddress, r.size.toNat, r.backtrace⟩

/-- A call that succeeded. -/
def AllocCall.Succeeded : AllocCall → Prop
  | .malloc _ p => p ≠ 0
  | .calloc nmemb size p => p ≠ 0 ∧ nmemb.toNat * size.toNat < 2 ^ 64
  | .free _ => True

/-- The text of a log. -/
def logText (calls : List LoggedCall) : List Char := (calls.map LoggedCall.text).flatten

/-- The line of a call. -/
def LoggedCall.line (c : LoggedCall) : List Char :=
  logLine c.call.calledFunction c.call.arguments c.backtrace

/-- A logged call is read back as its block. -/
theorem readLine_line {c : LoggedCall} (hcall : c.call.Succeeded)
    (hbt : ∀ ip ∈ c.backtrace, ip ≠ 0) :
    ∃ range, readLine c.line = .ok range ∧ range.map RangeInfo.block = c.block := by
  obtain ⟨call, backtrace⟩ := c
  cases call with
  | malloc size p => exact ⟨_, readLine_malloc size hcall hbt, rfl⟩
  | calloc nmemb size p =>
      refine ⟨_, readLine_calloc nmemb size hcall.1 hbt, ?_⟩
      have hsize : (size * nmemb).toNat = nmemb.toNat * size.toNat := by
        rw [UInt64.toNat_mul, Nat.mul_comm, Nat.mod_eq_of_lt hcall.2]
      show some (Block.mk p (size * nmemb).toNat backtrace) = _
      rw [hsize]
      rfl
  | free ptr => exact ⟨none, readLine_free _ _, rfl⟩

theorem isLineBreak_formatLu (n : UInt64) :
    ∀ c ∈ CLib.formatLu n, DotNet.isLineBreak c = false := by
  intro c hc
  obtain ⟨d, hd, rfl⟩ := mem_toDigits (by omega) hc
  interval_cases d <;> rfl

theorem isLineBreak_formatP (p : UInt64) : ∀ c ∈ CLib.formatP p, DotNet.isLineBreak c = false := by
  rw [CLib.formatP]
  split
  · exact DotNet.isLineBreak_text rfl
  · rw [List.forall_mem_append]
    refine ⟨DotNet.isLineBreak_text rfl, ?_⟩
    intro c hc
    obtain ⟨d, hd, rfl⟩ := mem_toDigits (by omega) hc
    interval_cases d <;> rfl

theorem isLineBreak_backtraceText (backtrace : List UInt64) :
    ∀ c ∈ backtraceText backtrace, DotNet.isLineBreak c = false := by
  intro c hc
  obtain ⟨piece, hpiece, hc⟩ := List.mem_flatten.mp hc
  obtain ⟨ip, -, rfl⟩ := List.mem_map.mp hpiece
  have hpiece : ∀ c ∈ CLib.formatP ip ++ " ".toList, DotNet.isLineBreak c = false := by
    rw [List.forall_mem_append]
    exact ⟨isLineBreak_formatP ip, DotNet.isLineBreak_text rfl⟩
  exact hpiece c hc

theorem isLineBreak_arguments (call : AllocCall) :
    ∀ c ∈ call.arguments, DotNet.isLineBreak c = false := by
  cases call with
  | malloc size p =>
      show ∀ c ∈ "size=".toList ++ CLib.formatLu size ++ " return=".toList ++ CLib.formatP p, _
      simp only [List.forall_mem_append]
      exact ⟨⟨⟨DotNet.isLineBreak_text rfl, isLineBreak_formatLu size⟩,
        DotNet.isLineBreak_text rfl⟩, isLineBreak_formatP p⟩
  | calloc nmemb size p =>
      show ∀ c ∈ "num=".toList ++ CLib.formatLu nmemb ++ " size=".toList ++ CLib.formatLu size ++
        " return=".toList ++ CLib.formatP p, _
      simp only [List.forall_mem_append]
      exact ⟨⟨⟨⟨⟨DotNet.isLineBreak_text rfl, isLineBreak_formatLu nmemb⟩,
        DotNet.isLineBreak_text rfl⟩, isLineBreak_formatLu size⟩,
        DotNet.isLineBreak_text rfl⟩, isLineBreak_formatP p⟩
  | free ptr =>
      show ∀ c ∈ "ptr=".toList ++ CLib.formatP ptr, _
      rw [List.forall_mem_append]
      exact ⟨DotNet.isLineBreak_text rfl, isLineBreak_formatP ptr⟩

/-- What a call prints is one line. -/
theorem isLineBreak_line (c : LoggedCall) : ∀ ch ∈ c.line, DotNet.isLineBreak ch = false := by
  have hname : ∀ ch ∈ c.call.calledFunction, DotNet.isLineBreak ch = false := by
    cases c.call with
    | malloc size p => exact DotNet.isLineBreak_text rfl
    | calloc nmemb size p => exact DotNet.isLineBreak_text rfl
    | free ptr => exact DotNet.isLineBreak_text rfl
  simp only [LoggedCall.line, logLine, List.forall_mem_append]
  exact ⟨hname, DotNet.isLineBreak_text rfl, isLineBreak_arguments c.call,
    DotNet.isLineBreak_text rfl, isLineBreak_backtraceText c.backtrace, DotNet.isLineBreak_text rfl⟩

theorem readLines_logText (calls : List LoggedCall) :
    DotNet.readLines (logText calls) = calls.map LoggedCall.line := by
  induction calls with
  | nil => rfl
  | cons c rest ih =>
      have htext : logText (c :: rest) = c.line ++ '\n' :: logText rest := by
        show c.text ++ logText rest = _
        rw [LoggedCall.text, outputMemAllocation_eq, List.append_assoc]
        rfl
      rw [htext, DotNet.readLines_line (isLineBreak_line c), ih]
      rfl

/-- The analyzer reads the log of any sequence of calls as the list of the blocks
they allocated, in the order of the calls. -/
theorem rangeInfos_logText (calls : List LoggedCall) (hcalls : ∀ c ∈ calls, c.call.Succeeded)
    (hbt : ∀ c ∈ calls, ∀ ip ∈ c.backtrace, ip ≠ 0) :
    ∃ ranges, rangeInfos (logText calls) = .ok ranges ∧
      ranges.map RangeInfo.block = calls.filterMap LoggedCall.block := by
  rw [rangeInfos, readLines_logText]
  induction calls with
  | nil => exact ⟨[], rfl, rfl⟩
  | cons c rest ih =>
      rw [List.forall_mem_cons] at hcalls hbt
      obtain ⟨range, hrange, hblock⟩ := readLine_line hcalls.1 hbt.1
      obtain ⟨ranges, hranges, hblocks⟩ := ih hcalls.2 hbt.2
      refine ⟨range.toList ++ ranges, ?_, ?_⟩
      · rw [List.map_cons, readRangeLines, hrange, hranges]
        rfl
      · rw [List.map_append, hblocks, List.filterMap_cons, ← hblock]
        cases range <;> rfl

/-- Three calls, one of them a `free`. -/
theorem rangeInfos_logText_three :
    ∃ ranges, rangeInfos (logText [⟨.malloc 16 0xb000, [0x400b, 0x4010]⟩, ⟨.free 0xb000, [0x4020]⟩,
        ⟨.calloc 3 8 0xb100, []⟩]) = .ok ranges ∧
      ranges.map RangeInfo.block = [⟨0xb000, 16, [0x400b, 0x4010]⟩, ⟨0xb100, 24, []⟩] :=
  rangeInfos_logText [⟨.malloc 16 0xb000, [0x400b, 0x4010]⟩, ⟨.free 0xb000, [0x4020]⟩,
    ⟨.calloc 3 8 0xb100, []⟩] (by simp [AllocCall.Succeeded]) (by simp)

/-! ## Reallocations -/

/-- What the library prints in front of the memory at `ptr`. -/
def reallocHead : List Char := "reallocptr=%p size=%lu return=%p: args=[".toList

/-- What the library prints behind it. -/
def reallocTail (backtrace : List UInt64) : List Char :=
  "] bt=[".toList ++ (backtraceText backtrace ++ "]\n".toList)

theorem logLine_append (calledFunction arguments : List Char) (backtrace : List UInt64) :
    logLine calledFunction arguments backtrace ++ ['\n'] =
      calledFunction ++ (": args=[".toList ++ (arguments ++ reallocTail backtrace)) := by
  rw [logLine, List.append_assoc, List.append_assoc, List.append_assoc, List.append_assoc,
    List.append_assoc]
  rfl

theorem reallocText_eq (vdprintf : UInt64 → List UInt64 → List Char) (ptr size p : UInt64)
    (backtrace : List UInt64) :
    reallocText vdprintf ptr size p backtrace =
      reallocHead ++ (vdprintf ptr [size, p] ++ reallocTail backtrace) := by
  show outputMemAllocation _ (vdprintf ptr [size, p]) backtrace = _
  rw [outputMemAllocation_eq, logLine_append]
  rfl

/-- The name of the first line is not one of the names with a handler. -/
theorem readLine_reallocHead (tail : List Char) : readLine (reallocHead ++ tail) = .ok none := rfl

/-- Nothing is found in the first line. -/
theorem rangeInfos_reallocText (vdprintf : UInt64 → List UInt64 → List Char) (ptr size p : UInt64)
    (backtrace : List UInt64) :
    rangeInfos (reallocText vdprintf ptr size p backtrace) =
      rangeInfos (DotNet.behindFirstLine (vdprintf ptr [size, p] ++ reallocTail backtrace)) := by
  have hhead : ∀ c ∈ reallocHead, DotNet.isLineBreak c = false := DotNet.isLineBreak_text rfl
  have hne : vdprintf ptr [size, p] ++ reallocTail backtrace ≠ [] :=
    List.append_ne_nil_of_right_ne_nil _ (List.cons_ne_nil _ _)
  obtain ⟨tail, hlines⟩ := DotNet.readLines_append hhead _ hne
  rw [rangeInfos, reallocText_eq, hlines, readRangeLines, readLine_reallocHead]
  show (readRangeLines _ >>= fun ranges => pure (none.toList ++ ranges)) = _
  rw [rangeInfos]
  cases readRangeLines (DotNet.readLines
    (DotNet.behindFirstLine (vdprintf ptr [size, p] ++ reallocTail backtrace))) <;> rfl

/-- There is nothing behind the first line if the memory at `ptr` prints none. -/
theorem behindFirstLine_reallocTail {printed : List Char}
    (h : ∀ c ∈ printed, DotNet.isLineBreak c = false) (backtrace : List UInt64) :
    DotNet.behindFirstLine (printed ++ reallocTail backtrace) = [] := by
  have hline : ∀ c ∈ "] bt=[".toList ++ (backtraceText backtrace ++ "]".toList),
      DotNet.isLineBreak c = false := by
    simp only [List.forall_mem_append]
    exact ⟨DotNet.isLineBreak_text rfl, isLineBreak_backtraceText backtrace,
      DotNet.isLineBreak_text rfl⟩
  have htail : reallocTail backtrace =
      ("] bt=[".toList ++ (backtraceText backtrace ++ "]".toList)) ++ ['\n'] := by
    rw [List.append_assoc, List.append_assoc]
    rfl
  rw [DotNet.behindFirstLine_append h, htail, DotNet.behindFirstLine_append hline]
  rfl

theorem readRangeLines_eq (lines : List (List Char)) :
    readRangeLines lines = collect (fun line => (readLine line).map Option.toList) lines := by
  induction lines with
  | nil => rfl
  | cons line lines ih =>
      rw [readRangeLines, ih, collect]
      cases readLine line <;> rfl

/-- A log holds one range exactly when one line is read as it and no other line as a
range. -/
theorem readRangeLines_singleton_iff {lines : List (List Char)} {range : RangeInfo} :
    readRangeLines lines = .ok [range] ↔ ∃ front line back, lines = front ++ line :: back ∧
      readLine line = .ok (some range) ∧ ∀ l ∈ front ++ back, readLine l = .ok none := by
  have hrange : ∀ l, (readLine l).map Option.toList = .ok [range] ↔
      readLine l = .ok (some range) := by
    intro l
    rcases readLine l with e | _ | r <;> simp [Except.map]
  have hnone : ∀ l, (readLine l).map Option.toList = .ok [] ↔ readLine l = .ok none := by
    intro l
    rcases readLine l with e | _ | r <;> simp [Except.map]
  rw [readRangeLines_eq, collect_eq_singleton_iff]
  simp only [hrange, hnone]

/-- A reallocation is read as the range it returned exactly when the memory it was
called with prints a line break, and of the lines it prints behind that break (the
last of them with the end of the library's line) one is an allocation line of that range
and the others are none. -/
theorem rangeInfos_realloc_iff (vdprintf : UInt64 → List UInt64 → List Char) (ptr size p : UInt64)
    (backtrace : List UInt64) :
    rangeInfos (reallocText vdprintf ptr size p backtrace) = .ok [⟨p, size, backtrace⟩] ↔
      (∃ c ∈ vdprintf ptr [size, p], DotNet.isLineBreak c = true) ∧
        ∃ front line back,
          DotNet.readLines (DotNet.behindFirstLine
            (vdprintf ptr [size, p] ++ reallocTail backtrace)) = front ++ line :: back ∧
          AllocationLine line ⟨p, size, backtrace⟩ ∧ ∀ l ∈ front ++ back, OtherLine l := by
  rw [rangeInfos_reallocText, rangeInfos, readRangeLines_singleton_iff]
  simp only [readLine_some_iff, readLine_none_iff]
  constructor
  · rintro ⟨front, line, back, hlines, hline, hothers⟩
    refine ⟨?_, front, line, back, hlines, hline, hothers⟩
    by_contra hnone
    have hbreak : ∀ c ∈ vdprintf ptr [size, p], DotNet.isLineBreak c = false := by
      intro c hc
      rw [← Bool.not_eq_true]
      exact fun hb => hnone ⟨c, hc, hb⟩
    rw [behindFirstLine_reallocTail hbreak] at hlines
    exact absurd hlines (List.append_ne_nil_of_right_ne_nil front (List.cons_ne_nil line back)).symm
  · exact And.right

/-- Memory that holds the beginning of an allocation line. -/
example : rangeInfos (reallocText (fun _ _ => "\nmalloc: args=[size=32 return=0x2000".toList)
    0x1000 32 0x2000 [0x400b]) = .ok [⟨0x2000, 32, [0x400b]⟩] := by decide +kernel

/-- `realloc (0x1000, 32) = 0x2000`, with a zero byte at `0x1000`: nothing is found. -/
theorem rangeInfos_realloc_empty :
    rangeInfos (reallocText (fun _ _ => []) 0x1000 32 0x2000 [0x400b]) = .ok [] ∧
      rangeInfos (reallocText (fun _ _ => []) 0x1000 32 0x2000 [0x400b]) ≠
        .ok [⟨0x2000, 32, [0x400b]⟩] := by
  have hnone : rangeInfos (reallocText (fun _ _ => []) 0x1000 32 0x2000 [0x400b]) = .ok [] := by
    rw [rangeInfos_reallocText, behindFirstLine_reallocTail (by simp)]
    rfl
  refine ⟨hnone, ?_⟩
  rw [hnone]
  exact fun h => absurd (Except.ok.inj h) (List.cons_ne_nil _ _).symm

end InMemoryFuzzing.Analyzers

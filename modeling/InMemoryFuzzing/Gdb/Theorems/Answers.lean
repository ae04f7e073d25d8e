import InMemoryFuzzing.Gdb.RegexLogic

/-!
# Blocking requests are answered

`HandleResponse` of these handlers raises, or answers that it has not handled the lines and
leaves its callback alone, or invokes the callback and returns `Handled`. The exception is
`InfoAddressRH`, which returns `Handled` without a callback when it understands none of the
lines (`requests_answered`); `SetBreakpointRH` invokes its callback there, too.
-/

namespace InMemoryFuzzing.Gdb

open Base Platform DotNet

namespace Response

/-- The callback is invoked exactly once where `Handled` is returned, and not at all with any
other answer. -/
structure Answered (response : Response) : Prop where
  handled : response.answer = some .handled → response.callbacks.length = 1
  other : ∀ answer, response.answer = some answer → answer ≠ .handled → response.callbacks = []

/-- The responses of a handler that understands its lines. -/
inductive Regular (returns : Callback → Bool) : Response → Prop
  | raised : Regular returns .raised
  | silent {answer : HandleResponseEnum} (h : answer ≠ .handled) : Regular returns (.silent answer)
  | invoke (callback : Callback) : Regular returns (.invoke returns callback)

variable {returns : Callback → Bool} {response : Response}

theorem Regular.answered (h : Regular returns response) : response.Answered := by
  cases h with
  | raised =>
      refine ⟨?_, ?_⟩
      · intro heq
        cases heq
      · intro answer heq
        cases heq
  | silent hne =>
      refine ⟨?_, fun _ _ _ => rfl⟩
      intro heq
      exact absurd (Option.some.inj heq) hne
  | invoke callback =>
      refine ⟨fun _ => rfl, ?_⟩
      intro answer heq hne
      obtain ⟨-, hhandled⟩ := Option.ite_none_right_eq_some.mp heq
      exact absurd (Option.some.inj hhandled).symm hne

/-- If the callback returns, it has been invoked if and only if `Handled` is returned. -/
theorem Regular.invoked (h : Regular (fun _ => true) response) :
    (!response.callbacks.isEmpty) = (response.answer == some .handled) := by
  cases h with
  | raised => rfl
  | silent hne =>
      rename_i answer
      cases answer with
      | handled => exact absurd rfl hne
      | notHandled => rfl
      | requestLine => rfl
  | invoke callback => rfl

theorem not_answered_silent : ¬(silent .handled).Answered := by
  intro h
  have hlength := h.handled rfl
  cases hlength

/-- A line that has a response. -/
theorem ofLines_regular {lineResponse : List Char → Option Response} {otherwise : Response}
    (hline : ∀ line response, lineResponse line = some response → Regular returns response)
    {lines : List (List Char)}
    (h : Regular returns otherwise ∨ ∃ line ∈ lines, (lineResponse line).isSome = true) :
    Regular returns (ofLines lineResponse otherwise lines) := by
  induction lines with
  | nil =>
      rcases h with hother | ⟨line, hmem, -⟩
      · exact hother
      · cases hmem
  | cons line lines ih =>
      rw [ofLines]
      split
      · rename_i response hsome
        exact hline line response hsome
      · rename_i hnone
        apply ih
        refine h.imp_right ?_
        rintro ⟨other, hmem, hsome⟩
        rcases List.mem_cons.mp hmem with rfl | htail
        · rw [hnone] at hsome
          cases hsome
        · exact ⟨other, htail, hsome⟩

theorem ofLines_otherwise {lineResponse : List Char → Option Response} (otherwise : Response)
    {lines : List (List Char)} (h : ∀ line ∈ lines, lineResponse line = none) :
    ofLines lineResponse otherwise lines = otherwise := by
  induction lines with
  | nil => rfl
  | cons line lines ih =>
      obtain ⟨hline, hlines⟩ := List.forall_mem_cons.mp h
      rw [ofLines, hline]
      exact ih hlines

end Response

section

variable (chars : CharData) (returns : Callback → Bool)

/-! ## `InfoAddressRH` -/

namespace InfoAddressRH

/-- In one of the lines there is an answer that gdb gives in English. -/
def Understands (responseLines : List (List Char)) : Prop :=
  ∃ line ∈ responseLines, (rStaticSymbol chars).Occurs line ∨ (rVariableSymbol chars).Occurs line ∨
    (rNoSymbol chars).Occurs line

theorem lineResponse_regular (symbol : String) {line : List Char} {response : Response}
    (h : lineResponse chars returns symbol line = some response) :
    response.Regular returns := by
  unfold lineResponse at h
  split at h
  · split at h
    · cases h
      exact .invoke _
    · cases h
      exact .raised
  · split at h
    · cases h
      exact .invoke _
    · split at h
      · cases h
        exact .invoke _
      · cases h

theorem lineResponse_isSome (symbol : String) (line : List Char) :
    (lineResponse chars returns symbol line).isSome = true ↔ (rStaticSymbol chars).Occurs line ∨
      (rVariableSymbol chars).Occurs line ∨ (rNoSymbol chars).Occurs line := by
  rw [← Pattern.search_isSome, ← Pattern.search_isSome, ← Pattern.search_isSome]
  unfold lineResponse
  cases (rStaticSymbol chars).search line with
  | some groups =>
      dsimp only
      split <;> simp
  | none =>
      cases (rVariableSymbol chars).search line with
      | some groups => simp
      | none =>
          cases (rNoSymbol chars).search line <;> simp

theorem handleResponse_regular (symbol : String) {responseLines : List (List Char)}
    (h : Understands chars responseLines) :
    (handleResponse chars returns symbol responseLines).Regular returns := by
  obtain ⟨line, hmem, hoccurs⟩ := h
  apply Response.ofLines_regular
  · exact fun _ _ hsome => lineResponse_regular chars returns symbol hsome
  · exact Or.inr ⟨line, hmem, (lineResponse_isSome chars returns symbol line).mpr hoccurs⟩

/-- Otherwise there is nothing behind the loop but `return`. -/
theorem handleResponse_silent (symbol : String) {responseLines : List (List Char)}
    (h : ¬Understands chars responseLines) :
    handleResponse chars returns symbol responseLines = .silent .handled := by
  apply Response.ofLines_otherwise
  intro line hmem
  rw [← Option.not_isSome_iff_eq_none, lineResponse_isSome]
  exact fun hoccurs => h ⟨line, hmem, hoccurs⟩

end InfoAddressRH

/-! ## The other handlers -/

theorem SetBreakpointRH.matched_regular (groups : List (List Char)) :
    (matched returns groups).Regular returns := by
  unfold matched
  split
  · exact .invoke _
  · exact .raised

theorem SetBreakpointRH.handleResponse_regular (responseLines : List (List Char))
    (allowRequestLine : Bool) :
    (handleResponse chars returns responseLines allowRequestLine).Regular returns := by
  unfold handleResponse
  split
  · exact .silent HandleResponseEnum.noConfusion
  · apply Response.ofLines_regular
    · intro line response h
      unfold lineResponse at h
      split at h
      · cases h
        exact matched_regular returns _
      · split at h
        · cases h
          exact matched_regular returns _
        · cases h
    · exact Or.inl (.invoke _)

theorem PrintRH.matched_regular (format : Format) (value : List Char) :
    (matched returns format value).Regular returns := by
  unfold matched
  split
  · split
    · exact .invoke _
    · exact .raised
  · exact .invoke _

theorem PrintRH.handleResponse_regular (format : Format) (responseLines : List (List Char))
    (allowRequestLine : Bool) :
    (handleResponse chars returns format responseLines allowRequestLine).Regular returns := by
  unfold handleResponse
  split
  · exact .silent HandleResponseEnum.noConfusion
  · apply Response.ofLines_regular
    · intro line response h
      unfold lineResponse at h
      split at h
      · cases h
        exact matched_regular returns format _
      · split at h
        · cases h
          exact .invoke _
        · split at h
          · cases h
            exact .invoke _
          · cases h
    · exact Or.inl (.silent HandleResponseEnum.noConfusion)

theorem WhatIsRH.handleResponse_regular (symbol : String) (responseLines : List (List Char)) :
    (handleResponse chars returns symbol responseLines).Regular returns := by
  unfold handleResponse
  split
  · exact .raised
  · split
    · exact .invoke _
    · split
      · exact .invoke _
      · split <;> exact .invoke _

theorem ReadMemoryRH.handleResponse_regular (buffer : List UInt8) (responseLines : List (List Char))
    (allowRequestLine : Bool) :
    (handleResponse chars returns buffer responseLines allowRequestLine).Regular returns := by
  unfold handleResponse
  split
  · exact .silent HandleResponseEnum.noConfusion
  · exact .invoke _

/-! ## All handlers -/

/-- The lines that do not make `InfoAddressRH` miss its callback. -/
def ResponseHandler.Understands (responseLines : List (List Char)) : ResponseHandler → Prop
  | .infoAddress _ => InfoAddressRH.Understands chars responseLines
  | _ => True

theorem ResponseHandler.handleResponse_regular {rh : ResponseHandler}
    {responseLines : List (List Char)} (h : rh.Understands chars responseLines)
    (allowRequestLine : Bool) :
    (rh.handleResponse chars returns responseLines allowRequestLine).Regular returns := by
  cases rh with
  | infoAddress symbol => exact InfoAddressRH.handleResponse_regular chars returns symbol h
  | setBreakpoint => exact SetBreakpointRH.handleResponse_regular chars returns _ _
  | print format => exact PrintRH.handleResponse_regular chars returns format _ _
  | whatIs symbol => exact WhatIsRH.handleResponse_regular chars returns symbol _
  | readMemory buffer => exact ReadMemoryRH.handleResponse_regular chars returns buffer _ _

theorem ResponseHandler.handleResponse_silent {rh : ResponseHandler}
    {responseLines : List (List Char)} (h : ¬rh.Understands chars responseLines)
    (allowRequestLine : Bool) :
    rh.handleResponse chars returns responseLines allowRequestLine = .silent .handled := by
  cases rh with
  | infoAddress symbol => exact InfoAddressRH.handleResponse_silent chars returns symbol h
  | _ => exact absurd trivial h

end

/-! ## Requests -/

/-- A request whose command is completed has been released. -/
def Request.Released (request : Request) : Prop :=
  request.completed = true → request.evt = true

/-- The event is set if and only if the command is completed. -/
theorem request_step {chars : CharData} {rh : ResponseHandler} {request next : Request}
    {call : HandlerCall} (hevt : request.evt = request.completed)
    (h : (requests chars rh).step request call = some next) :
    (next.Released ↔ rh.Understands chars call.responseLines) ∧
      (rh.Understands chars call.responseLines → next.evt = next.completed) := by
  obtain ⟨hopen, heq⟩ := Option.ite_none_left_eq_some.mp h
  rw [Bool.not_eq_true] at hopen
  cases heq
  by_cases hunderstands : rh.Understands chars call.responseLines
  · have hregular := ResponseHandler.handleResponse_regular chars (fun _ => true) hunderstands
      call.allowRequestLine
    have hsame : (request.evt || !(rh.handleResponse chars (fun _ => true) call.responseLines
        call.allowRequestLine).callbacks.isEmpty) =
        ((rh.handleResponse chars (fun _ => true) call.responseLines
          call.allowRequestLine).answer == some .handled) := by
      rw [hevt, hopen, Bool.false_or]
      exact hregular.invoked
    refine ⟨iff_of_true ?_ hunderstands, fun _ => hsame⟩
    intro hcompleted
    exact hsame.trans hcompleted
  · refine ⟨iff_of_false ?_ hunderstands, fun h => absurd h hunderstands⟩
    rw [ResponseHandler.handleResponse_silent chars (fun _ => true) hunderstands]
    intro hreleased
    have hset := hreleased rfl
    rw [hevt, hopen] at hset
    cases hset

theorem requests_inductive (chars : CharData) (rh : ResponseHandler) :
    (requests chars rh).Inductive (fun _ call => rh.Understands chars call.responseLines)
      fun request => request.evt = request.completed where
  init request hinit := by
    cases hinit
    rfl
  step _ _ _ hevt hunderstands hstep := (request_step hevt hstep).2 hunderstands

/-- A call of `HandleResponse`, and the request over any sequence of such calls. -/
theorem requests_answered (chars : CharData) (rh : ResponseHandler) :
    (∀ returns responseLines allowRequestLine,
      (rh.handleResponse chars returns responseLines allowRequestLine).Answered ↔
        rh.Understands chars responseLines) ∧
    ∀ request, (requests chars rh).ReachableBy
        (fun _ call => rh.Understands chars call.responseLines) request →
      request.Released ∧ ∀ call next, (requests chars rh).step request call = some next →
        (next.Released ↔ rh.Understands chars call.responseLines) := by
  refine ⟨?_, ?_⟩
  · intro returns responseLines allowRequestLine
    constructor
    · intro hanswered
      by_contra hnot
      rw [ResponseHandler.handleResponse_silent chars returns hnot] at hanswered
      exact Response.not_answered_silent hanswered
    · intro h
      exact (ResponseHandler.handleResponse_regular chars returns h allowRequestLine).answered
  · intro request hreach
    have hevt := (requests_inductive chars rh).invariant request hreach
    exact ⟨fun hcompleted => hevt.trans hcompleted, fun _ _ hstep => (request_step hevt hstep).1⟩

/-- The characters of gdb's English answers. -/
def asciiData : CharData := ⟨Char.toLower, Char.isDigit⟩

theorem isUpper_iff {c : Char} : c.isUpper = true ↔ 65 ≤ c.toNat ∧ c.toNat ≤ 90 := by
  show decide ('A'.val ≤ c.val ∧ c.val ≤ 'Z'.val) = true ↔ _
  rw [decide_eq_true_iff, UInt32.le_iff_toNat_le, UInt32.le_iff_toNat_le]
  exact Iff.rfl

theorem isLower_iff {c : Char} : c.isLower = true ↔ 97 ≤ c.toNat ∧ c.toNat ≤ 122 := by
  show (decide ('a'.val ≤ c.val) && decide (c.val ≤ 'z'.val)) = true ↔ _
  rw [Bool.and_eq_true, decide_eq_true_iff, decide_eq_true_iff, UInt32.le_iff_toNat_le,
    UInt32.le_iff_toNat_le]
  exact Iff.rfl

theorem toLower_of_not_upper {c : Char} (h : c.isUpper = false) : c.toLower = c :=
  dif_neg (of_decide_eq_false h)

theorem toLower_of_upper {c : Char} (h : c.isUpper = true) : c.toLower.isLower = true := by
  have hrange := isUpper_iff.mp h
  have hval : c.toLower.toNat = c.toNat + 32 := by
    have hlower : c.toLower.val = c.val + ('a'.val - 'A'.val) :=
      congrArg Char.val (dif_pos (of_decide_eq_true h))
    have hdiff : ('a'.val - 'A'.val).toNat = 32 := rfl
    show c.toLower.val.toNat = _
    rw [hlower, UInt32.toNat_add, hdiff]
    exact Nat.mod_eq_of_lt (by show c.toNat + 32 < 2 ^ 32; omega)
  rw [isLower_iff, hval]
  omega

theorem asciiData_lettersOnly : asciiData.LettersOnly := by
  intro c d _ halpha h
  obtain ⟨hupper, hlower⟩ : d.isUpper = false ∧ d.isLower = false := Bool.or_eq_false_iff.mp halpha
  change c.toLower = d.toLower at h
  rw [toLower_of_not_upper hupper] at h
  cases hc : c.isUpper with
  | true =>
      rw [← h, toLower_of_upper hc] at hlower
      cases hlower
  | false => rwa [toLower_of_not_upper hc] at h

theorem asciiData_keepsLower : asciiData.KeepsLower := by
  intro c hc
  apply toLower_of_not_upper
  rw [Bool.eq_false_iff, ne_eq, isUpper_iff]
  have hrange := isLower_iff.mp hc
  omega

/-- The answer for a symbol at an address. -/
def staticAnswer : List Char := "Symbol \"i\" is static storage at address 0x2a.".toList

/-- It is understood, and `ResolveSymbol` is released. -/
theorem requests_answered_static :
    ((ResponseHandler.infoAddress "i").handleResponse asciiData (fun _ => true) [staticAnswer]
      false).Answered ∧
    ∃ request, (requests asciiData (.infoAddress "i")).step ⟨false, false⟩
        ⟨[staticAnswer], false⟩ = some request ∧ request.completed = true ∧
      request.Released := by
  have hunderstands : (ResponseHandler.infoAddress "i").Understands asciiData [staticAnswer] := by
    refine ⟨staticAnswer, List.mem_singleton_self _, Or.inl ?_⟩
    rw [← Pattern.search_isSome]
    decide
  obtain ⟨hanswered, hrequests⟩ := requests_answered asciiData (.infoAddress "i")
  obtain ⟨request, hstep, hcompleted⟩ : ∃ request, (requests asciiData (.infoAddress "i")).step
      ⟨false, false⟩ ⟨[staticAnswer], false⟩ = some request ∧ request.completed = true :=
    ⟨⟨true, true⟩, by decide, rfl⟩
  refine ⟨(hanswered _ _ _).mpr hunderstands, request, hstep, hcompleted, ?_⟩
  exact ((hrequests _ (TSys.ReachableBy.init rfl)).2 _ _ hstep).mpr hunderstands

/-- The answer for a symbol without an address. -/
def optimizedOut : List Char := "Symbol \"i\" is optimized out.".toList

/-- `ResolveSymbol` is never released. -/
theorem optimized_out_not_answered :
    (ResponseHandler.infoAddress "i").handleResponse asciiData (fun _ => true) [optimizedOut]
        false = ⟨[], some .handled⟩ ∧
      ¬((ResponseHandler.infoAddress "i").handleResponse asciiData (fun _ => true) [optimizedOut]
        false).Answered ∧
      (requests asciiData (.infoAddress "i")).step ⟨false, false⟩ ⟨[optimizedOut], false⟩ =
        some ⟨false, true⟩ := by
  have hsilent : (ResponseHandler.infoAddress "i").handleResponse asciiData (fun _ => true)
      [optimizedOut] false = .silent .handled := by
    decide
  refine ⟨hsilent, ?_, by decide⟩
  rw [hsilent]
  exact Response.not_answered_silent

end InMemoryFuzzing.Gdb

import InMemoryFuzzing.Platform.DotNet

/-!
# `string.Format` without arguments

A format may name arguments between braces. Where there are none, a brace stands only for itself,
and only if it is written twice; anything else raises.
-/

namespace InMemoryFuzzing.Platform.DotNet

/-- `string.Format (format, new object[0])`. -/
def stringFormat : List Char → Except NetException (List Char)
  | [] => .ok []
  | '{' :: '{' :: rest => (stringFormat rest).map ('{' :: ·)
  | '}' :: '}' :: rest => (stringFormat rest).map ('}' :: ·)
  | c :: rest => if c = '{' ∨ c = '}' then .error .format else (stringFormat rest).map (c :: ·)

/-- There is no brace. -/
def Plain (text : List Char) : Prop := ∀ c ∈ text, c ≠ '{' ∧ c ≠ '}'

instance (text : List Char) : Decidable (Plain text) :=
  inferInstanceAs (Decidable (∀ c ∈ text, c ≠ '{' ∧ c ≠ '}'))

theorem stringFormat_plain {c : Char} (h : c ≠ '{' ∧ c ≠ '}') (rest : List Char) :
    stringFormat (c :: rest) = (stringFormat rest).map (c :: ·) := by
  rw [stringFormat, if_neg (not_or.mpr h)]
  · rintro _ rfl
    exact absurd rfl h.1
  · rintro _ rfl
    exact absurd rfl h.2

theorem map_cons_ok {c : Char} {x : Except NetException (List Char)} {text : List Char}
    (h : x.map (c :: ·) = .ok text) : ∃ rest, x = .ok rest ∧ text = c :: rest := by
  cases x with
  | error e => cases h
  | ok rest =>
      cases h
      exact ⟨rest, rfl, rfl⟩

/-- What is formatted is not longer, and it is shorter if there is a brace. -/
theorem stringFormat_length {text formatted : List Char} (h : stringFormat text = .ok formatted) :
    formatted.length ≤ text.length ∧ (formatted.length = text.length → Plain text) := by
  induction text using stringFormat.induct generalizing formatted with
  | case1 =>
      cases h
      exact ⟨le_rfl, fun _ _ hc => nomatch hc⟩
  | case2 rest ih =>
      obtain ⟨tail, htail, rfl⟩ := map_cons_ok h
      have hle := (ih htail).1
      simp only [List.length_cons]
      exact ⟨by omega, by omega⟩
  | case3 rest ih =>
      obtain ⟨tail, htail, rfl⟩ := map_cons_ok h
      have hle := (ih htail).1
      simp only [List.length_cons]
      exact ⟨by omega, by omega⟩
  | case4 c rest hopen hclose hbrace =>
      rw [stringFormat, if_pos hbrace] at h
      · cases h
      · exact hopen
      · exact hclose
  | case5 c rest hopen hclose hbrace ih =>
      have hplain := not_or.mp hbrace
      rw [stringFormat_plain hplain] at h
      obtain ⟨tail, htail, rfl⟩ := map_cons_ok h
      obtain ⟨hle, hsame⟩ := ih htail
      simp only [List.length_cons]
      refine ⟨by omega, fun hlength => ?_⟩
      have hrest := hsame (by omega)
      exact List.forall_mem_cons.mpr ⟨hplain, hrest⟩

theorem Plain.stringFormat {text : List Char} (h : Plain text) :
    DotNet.stringFormat text = .ok text := by
  induction text with
  | nil => rfl
  | cons c rest ih =>
      obtain ⟨hc, hrest⟩ := List.forall_mem_cons.mp h
      rw [stringFormat_plain hc, ih hrest]
      rfl

/-- A text stands for itself if and only if there is no brace in it. -/
theorem stringFormat_eq_self_iff {text : List Char} : stringFormat text = .ok text ↔ Plain text :=
  ⟨fun h => (stringFormat_length h).2 rfl, Plain.stringFormat⟩

end InMemoryFuzzing.Platform.DotNet

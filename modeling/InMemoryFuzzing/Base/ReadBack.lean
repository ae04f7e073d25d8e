import InMemoryFuzzing.Base.Collect

/-!
# What is written is read back

A writer appends to a sink until it raises; a reader takes a value from the front of a list. A
format is a pair of both, and formats are put one behind the other:

* `Written` — what a writer has appended, and what it has raised;
* `Reads` — a reader takes exactly these elements for this value, whatever stands behind them.
  This is what survives composition: nothing is left over that a later reader would find.
-/

namespace InMemoryFuzzing.Base

variable {ε α β γ σ τ : Type}

/-! ## Writers -/

/-- The elements appended to the sink, and the exception that ended the writing, if any. -/
structure Written (ε α : Type) where
  items : List α
  raised : Option ε
  deriving DecidableEq, Repr

namespace Written

/-- The writer returns. -/
def ok (items : List α) : Written ε α := ⟨items, none⟩

/-- Nothing is written any more. -/
def raise (e : ε) : Written ε α := ⟨[], some e⟩

/-- One writer behind the other, unless the first one raises. -/
def andThen (first second : Written ε α) : Written ε α :=
  match first.raised with
  | some e => ⟨first.items, some e⟩
  | none => ⟨first.items ++ second.items, second.raised⟩

/-- A loop over a list whose body writes. -/
def each (write : τ → Written ε α) : List τ → Written ε α
  | [] => ok []
  | x :: xs => (write x).andThen (each write xs)

@[simp] theorem ok_andThen (items : List α) (second : Written ε α) :
    (ok items).andThen second = ⟨items ++ second.items, second.raised⟩ := rfl

@[simp] theorem ok_andThen_ok (front back : List α) :
    (ok front : Written ε α).andThen (ok back) = ok (front ++ back) := rfl

/-- A sequence of writers returns when each of them does. -/
theorem andThen_raised {first second : Written ε α} :
    (first.andThen second).raised = none ↔ first.raised = none ∧ second.raised = none := by
  unfold andThen
  cases first.raised with
  | none => simp
  | some e => simp

/-- What the writers that return have written, one behind the other. -/
theorem andThen_items {first second : Written ε α} (h : first.raised = none) :
    (first.andThen second).items = first.items ++ second.items := by
  rw [andThen, h]

theorem each_raised {write : τ → Written ε α} {xs : List τ} :
    (each write xs).raised = none ↔ ∀ x ∈ xs, (write x).raised = none := by
  induction xs with
  | nil => simp [each, ok]
  | cons x xs ih => simp [each, andThen_raised, ih]

theorem each_items {write : τ → Written ε α} {xs : List τ}
    (h : ∀ x ∈ xs, (write x).raised = none) :
    (each write xs).items = xs.flatMap fun x => (write x).items := by
  induction xs with
  | nil => rfl
  | cons x xs ih =>
      rw [List.forall_mem_cons] at h
      rw [each, andThen_items h.1, ih h.2, List.flatMap_cons]

/-- A loop whose calls return. -/
theorem each_ok {write : τ → Written ε α} {enc : τ → List α} {xs : List τ}
    (h : ∀ x ∈ xs, write x = ok (enc x)) : each write xs = ok (xs.flatMap enc) := by
  induction xs with
  | nil => rfl
  | cons x xs ih =>
      rw [List.forall_mem_cons] at h
      rw [each, h.1, ih h.2, ok_andThen_ok, List.flatMap_cons]

/-- A writer that returns is known by what it has written. -/
theorem eq_ok {w : Written ε α} (h : w.raised = none) : w = ok w.items := by
  cases w with
  | mk items raised =>
      obtain rfl : raised = none := h
      rfl

end Written

/-! ## Readers -/

/-- A value from the front of a list, and the list behind it. -/
abbrev Reader (ε α β : Type) := List α → Except ε (β × List α)

/-- The reader takes exactly `front` for `v`. -/
def Reads (r : Reader ε α β) (front : List α) (v : β) : Prop :=
  ∀ rest, r (front ++ rest) = .ok (v, rest)

/-- A loop over a list whose body reads; it starts in a state and goes on with what the body
makes of it. -/
def readAll (body : τ → σ → Reader ε α σ) : List τ → σ → Reader ε α σ
  | [], s, src => .ok (s, src)
  | x :: xs, s, src => do
      let (s, src) ← body x s src
      readAll body xs s src

/-- What is read is made into something else. -/
def mapRead (f : β → γ) (r : Reader ε α β) : Reader ε α γ := fun src => do
  let (v, src) ← r src
  return (f v, src)

/-- One value for each element of a list. -/
def readEach (read : τ → Reader ε α β) : List τ → Reader ε α (List β)
  | [], src => .ok ([], src)
  | x :: xs, src => do
      let (v, src) ← read x src
      mapRead (v :: ·) (readEach read xs) src

/-- A loop that counts. -/
def readLoop (body : σ → Reader ε α σ) (n : Nat) : σ → Reader ε α σ :=
  readAll (fun _ => body) (List.replicate n ())

/-- As many values as are asked for. -/
def readTimes (read : Reader ε α β) (n : Nat) : Reader ε α (List β) :=
  readEach (fun _ => read) (List.replicate n ())

/-- It does not matter over which elements a loop goes if its body does not look at them. -/
theorem readAll_const (body : σ → Reader ε α σ) (xs : List τ) :
    readAll (fun _ => body) xs = readLoop body xs.length := by
  induction xs with
  | nil => rfl
  | cons x xs ih =>
      funext s src
      rw [readAll, ih]
      rfl

namespace Reads

theorem pure (v : β) : Reads (ε := ε) (α := α) (fun src => .ok (v, src)) [] v := fun _ => rfl

/-- A reader behind another one. -/
theorem bind {r : Reader ε α β} {front back : List α} {v : β} {w : γ} (next : β → Reader ε α γ)
    (hr : Reads r front v) (hnext : Reads (next v) back w) :
    Reads (fun src => r src >>= fun p => next p.1 p.2) (front ++ back) w := by
  intro rest
  show (r (front ++ back ++ rest) >>= fun p => next p.1 p.2) = _
  rw [List.append_assoc, hr]
  exact hnext rest

theorem map {r : Reader ε α β} {front : List α} {v : β} (hr : Reads r front v) (f : β → γ) :
    Reads (mapRead f r) front (f v) := by
  have h := hr.bind (fun v src => .ok (f v, src)) (Reads.pure (f v))
  rwa [List.append_nil] at h

/-- A loop reads what has been written element by element, if its body does so in each of the
states that it passes through. -/
theorem all {body : τ → σ → Reader ε α σ} {enc : τ → List α} {xs : List τ}
    (next : σ → τ → σ) (s : σ) (h : ∀ front x back, xs = front ++ x :: back →
      Reads (body x (front.foldl next s)) (enc x) (next (front.foldl next s) x)) :
    Reads (readAll body xs s) (xs.flatMap enc) (xs.foldl next s) := by
  induction xs generalizing s with
  | nil => exact Reads.pure s
  | cons x xs ih =>
      rw [List.flatMap_cons]
      refine (h [] x xs rfl).bind (readAll body xs) (ih (next s x) ?_)
      intro front y back hxs
      exact h (x :: front) y back (congrArg (x :: ·) hxs)

/-- A value is read for each element, if each of them is read. -/
theorem each {read : σ → Reader ε α β} {kind : τ → σ} {enc : τ → List α} {value : τ → β}
    {xs : List τ} (h : ∀ x ∈ xs, Reads (read (kind x)) (enc x) (value x)) :
    Reads (readEach read (xs.map kind)) (xs.flatMap enc) (xs.map value) := by
  induction xs with
  | nil => exact Reads.pure []
  | cons x xs ih =>
      rw [List.forall_mem_cons] at h
      rw [List.map_cons, List.flatMap_cons, List.map_cons]
      exact h.1.bind (fun v => mapRead (v :: ·) (readEach read (xs.map kind))) ((ih h.2).map _)

/-- A loop that counts reads as many elements as have been written. -/
theorem loop {body : σ → Reader ε α σ} {enc : τ → List α} {xs : List τ} (next : σ → τ → σ)
    (s : σ) (h : ∀ front x back, xs = front ++ x :: back →
      Reads (body (front.foldl next s)) (enc x) (next (front.foldl next s) x)) :
    Reads (readLoop body xs.length s) (xs.flatMap enc) (xs.foldl next s) := by
  rw [← readAll_const]
  exact Reads.all next s h

theorem times {read : Reader ε α β} {enc : β → List α} {vs : List β}
    (h : ∀ v ∈ vs, Reads read (enc v) v) : Reads (readTimes read vs.length) (vs.flatMap enc) vs := by
  have hreads : Reads (readEach (fun _ : Unit => read) (vs.map fun _ => ())) (vs.flatMap enc)
      (vs.map id) := Reads.each h
  rwa [List.map_id, List.map_const'] at hreads

end Reads

end InMemoryFuzzing.Base

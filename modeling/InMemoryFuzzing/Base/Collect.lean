import Mathlib.Data.List.Basic
import Mathlib.Data.List.Forall2

/-!
# Loops that collect

`collect f xs` runs `f` on the elements of a list one after the other, appends
what the calls yield, and ends with the first call that fails.
-/

namespace InMemoryFuzzing.Base

variable {ε α β γ : Type}

/-- A call that has returned. -/
theorem ok_bind (a : α) (f : α → Except ε β) : (Except.ok a >>= f) = f a := rfl

/-- A sequence of calls returns when each of them does. -/
theorem bind_ok {x : Except ε α} {f : α → Except ε β} {r : β} :
    x >>= f = .ok r ↔ ∃ a, x = .ok a ∧ f a = .ok r := by
  cases x with
  | error e => exact ⟨fun h => (by cases h), fun ⟨_, h, _⟩ => (by cases h)⟩
  | ok a => exact ⟨fun h => ⟨a, rfl, h⟩, fun ⟨_, h, hf⟩ => by cases h; exact hf⟩

theorem map_ok_iff {x : Except ε α} {f : α → β} {r : β} :
    x.map f = .ok r ↔ ∃ a, x = .ok a ∧ f a = r := by
  cases x with
  | error e => exact ⟨fun h => (by cases h), fun ⟨_, h, _⟩ => (by cases h)⟩
  | ok a => simp [Except.map]

theorem forall₂_congr_mem {R S : α → β → Prop} {xs : List α} {ys : List β}
    (h : ∀ x ∈ xs, ∀ y, R x y ↔ S x y) : List.Forall₂ R xs ys ↔ List.Forall₂ S xs ys := by
  induction xs generalizing ys with
  | nil => cases ys <;> simp
  | cons x xs ih =>
      rw [List.forall_mem_cons] at h
      cases ys with
      | nil => simp
      | cons y ys => rw [List.forall₂_cons, List.forall₂_cons, h.1 y, ih h.2]

/-- A loop over a list whose body yields a list or fails. -/
def collect (f : α → Except ε (List β)) : List α → Except ε (List β)
  | [] => .ok []
  | x :: xs => do
      let front ← f x
      let rest ← collect f xs
      return front ++ rest

/-- A loop returns when each call does, with the results behind one another. -/
theorem collect_ok_iff {f : α → Except ε (List β)} {xs : List α} {r : List β} :
    collect f xs = .ok r ↔
      ∃ results, List.Forall₂ (fun x y => f x = .ok y) xs results ∧ r = results.flatten := by
  induction xs generalizing r with
  | nil =>
      constructor
      · intro h
        cases h
        exact ⟨[], .nil, rfl⟩
      · rintro ⟨results, hresults, rfl⟩
        cases hresults
        rfl
  | cons x xs ih =>
      rw [collect, bind_ok]
      constructor
      · rintro ⟨front, hfront, h⟩
        obtain ⟨rest, hrest, h⟩ := bind_ok.mp h
        cases h
        obtain ⟨results, hresults, rfl⟩ := ih.mp hrest
        exact ⟨front :: results, .cons hfront hresults, rfl⟩
      · rintro ⟨results, hresults, rfl⟩
        cases hresults with
        | cons hfront hrest =>
            refine ⟨_, hfront, ?_⟩
            rw [ih.mpr ⟨_, hrest, rfl⟩]
            rfl

theorem collect_congr {f g : α → Except ε (List β)} {xs : List α} (h : ∀ x ∈ xs, f x = g x) :
    collect f xs = collect g xs := by
  induction xs with
  | nil => rfl
  | cons x xs ih =>
      rw [List.forall_mem_cons] at h
      rw [collect, collect, h.1, ih h.2]

theorem collect_map (f : α → Except ε (List β)) (g : γ → α) (xs : List γ) :
    collect f (xs.map g) = collect (fun x => f (g x)) xs := by
  induction xs with
  | nil => rfl
  | cons x xs ih => rw [List.map_cons, collect, collect, ih]

theorem collect_append (f : α → Except ε (List β)) (xs ys : List α) :
    collect f (xs ++ ys) = do
      let front ← collect f xs
      let rest ← collect f ys
      return front ++ rest := by
  induction xs with
  | nil =>
      rw [List.nil_append, collect]
      cases collect f ys <;> rfl
  | cons x xs ih =>
      rw [List.cons_append, collect, collect, ih]
      cases f x with
      | error e => rfl
      | ok front =>
          cases collect f xs with
          | error e => rfl
          | ok mid =>
              cases collect f ys with
              | error e => rfl
              | ok rest =>
                  show Except.ok (front ++ (mid ++ rest)) = Except.ok (front ++ mid ++ rest)
                  rw [List.append_assoc]

/-- Two nested loops are one loop. -/
theorem collect_flatMap (f : α → Except ε (List β)) (g : γ → List α) (xs : List γ) :
    collect f (xs.flatMap g) = collect (fun x => collect f (g x)) xs := by
  induction xs with
  | nil => rfl
  | cons x xs ih => rw [List.flatMap_cons, collect_append, ih, collect]

theorem collect_filterMap (f : α → Except ε (List β)) (g : γ → Option α) (xs : List γ) :
    collect f (xs.filterMap g) =
      collect (fun x => (g x).elim (.ok []) f) xs := by
  induction xs with
  | nil => rfl
  | cons x xs ih =>
      rw [List.filterMap_cons, collect, ← ih]
      cases g x with
      | none => cases collect f (xs.filterMap g) <;> rfl
      | some a => rfl

/-- A loop whose body yields one result for the elements it selects. -/
theorem collect_select_iff {p : α → Prop} [DecidablePred p] {f : α → Except ε β} {xs : List α}
    {r : List β} :
    collect (fun x => if p x then (f x).map fun y => [y] else .ok []) xs = .ok r ↔
      (xs.filter p).map f = r.map .ok := by
  induction xs generalizing r with
  | nil =>
      show Except.ok [] = _ ↔ [] = r.map Except.ok
      rw [Except.ok.injEq, eq_comm, List.nil_eq, List.map_eq_nil_iff]
  | cons x xs ih =>
      by_cases hp : p x
      · rw [List.filter_cons_of_pos (by simpa using hp), collect, if_pos hp, List.map_cons]
        cases hf : f x with
        | error e =>
            constructor
            · intro h
              cases h
            · intro h
              cases r <;> cases h
        | ok y =>
            show (collect _ xs >>= fun rest => .ok (y :: rest)) = _ ↔ _
            cases r with
            | nil => cases collect _ xs <;> simp [bind, Except.bind]
            | cons z r =>
                rw [List.map_cons, List.cons.injEq, ← ih]
                cases collect _ xs <;> simp [bind, Except.bind]
      · rw [List.filter_cons_of_neg (by simpa using hp), collect, if_neg hp, ← ih]
        cases collect _ xs <;> simp [bind, Except.bind, pure, Except.pure]

/-- A loop yields nothing exactly when every call yields nothing. -/
theorem collect_eq_nil_iff {f : α → Except ε (List β)} {xs : List α} :
    collect f xs = .ok [] ↔ ∀ x ∈ xs, f x = .ok [] := by
  induction xs with
  | nil =>
      show Except.ok [] = Except.ok [] ↔ _
      exact ⟨fun _ x hx => absurd hx List.not_mem_nil, fun _ => rfl⟩
  | cons x xs ih =>
      rw [List.forall_mem_cons, ← ih, collect]
      cases hf : f x with
      | error e => simp [bind, Except.bind]
      | ok front => cases collect f xs <;> simp [bind, Except.bind, pure, Except.pure]

/-- A loop yields one result exactly when one call yields it and the others nothing. -/
theorem collect_eq_singleton_iff {f : α → Except ε (List β)} {xs : List α} {y : β} :
    collect f xs = .ok [y] ↔ ∃ front x back, xs = front ++ x :: back ∧ f x = .ok [y] ∧
      ∀ z ∈ front ++ back, f z = .ok [] := by
  constructor
  · intro h
    induction xs with
    | nil => exact absurd (Except.ok.inj h) (List.cons_ne_nil y []).symm
    | cons x xs ih =>
        rw [collect] at h
        obtain ⟨first, hfirst, h⟩ := bind_ok.mp h
        obtain ⟨rest, hrest, h⟩ := bind_ok.mp h
        rcases List.append_eq_singleton_iff.mp (Except.ok.inj h) with ⟨rfl, rfl⟩ | ⟨rfl, rfl⟩
        · -- the call on `x` yields nothing, so the result is from the rest of the list
          obtain ⟨front, z, back, rfl, hz, hothers⟩ := ih hrest
          refine ⟨x :: front, z, back, rfl, hz, ?_⟩
          rw [List.cons_append, List.forall_mem_cons]
          exact ⟨hfirst, hothers⟩
        · exact ⟨[], x, xs, rfl, hfirst, collect_eq_nil_iff.mp hrest⟩
  · rintro ⟨front, x, back, rfl, hx, hothers⟩
    rw [List.forall_mem_append] at hothers
    rw [collect_append, collect, collect_eq_nil_iff.mpr hothers.1,
      collect_eq_nil_iff.mpr hothers.2, hx]
    rfl

/-- Where no call yields more than is expected of it, the loop yields what is expected if and only
if every call does. -/
theorem collect_expected_iff {f : α → Except ε (List β)} {g : α → List β} {xs : List α}
    (hle : ∀ x ∈ xs, ∀ y, f x = .ok y → y.length ≤ (g x).length) :
    collect f xs = .ok (xs.flatMap g) ↔ ∀ x ∈ xs, f x = .ok (g x) := by
  have hshort : ∀ {xs : List α}, (∀ x ∈ xs, ∀ y, f x = .ok y → y.length ≤ (g x).length) →
      ∀ r, collect f xs = .ok r → r.length ≤ (xs.flatMap g).length := by
    intro xs hle
    induction xs with
    | nil =>
        intro r h
        cases h
        exact Nat.zero_le _
    | cons x xs ih =>
        intro r h
        rw [List.forall_mem_cons] at hle
        obtain ⟨first, hfirst, h⟩ := bind_ok.mp h
        obtain ⟨rest, hrest, h⟩ := bind_ok.mp h
        cases Except.ok.inj h
        have hx := hle.1 first hfirst
        have hxs := ih hle.2 rest hrest
        rw [List.flatMap_cons, List.length_append, List.length_append]
        omega
  induction xs with
  | nil => exact ⟨fun _ x hx => absurd hx List.not_mem_nil, fun _ => rfl⟩
  | cons x xs ih =>
      rw [List.forall_mem_cons] at hle
      rw [List.forall_mem_cons, collect, List.flatMap_cons]
      refine Iff.trans ?_ (and_congr_right fun _ => ih hle.2)
      constructor
      · intro h
        obtain ⟨first, hfirst, h⟩ := bind_ok.mp h
        obtain ⟨rest, hrest, h⟩ := bind_ok.mp h
        have hsame := Except.ok.inj h
        have hx := hle.1 first hfirst
        have hxs := hshort hle.2 rest hrest
        -- neither part is longer than it should be, so both have the length they should have
        have hlength := congrArg List.length hsame
        rw [List.length_append, List.length_append] at hlength
        obtain ⟨rfl, rfl⟩ := List.append_inj hsame (by omega)
        exact ⟨hfirst, hrest⟩
      · rintro ⟨hx, hxs⟩
        rw [hx, hxs]
        rfl

/-- A loop whose body does not look at the element. -/
theorem collect_const (xs : List α) (r : List β) :
    collect (fun _ => (.ok r : Except ε (List β))) xs =
      .ok (List.replicate xs.length r).flatten := by
  induction xs with
  | nil => rfl
  | cons x xs ih =>
      rw [collect, ih, List.length_cons, List.replicate_succ, List.flatten_cons]
      rfl

theorem collect_const_ok {xs : List α} (hne : xs ≠ []) {body : Except ε (List β)} {reports : List β}
    (h : collect (fun _ => body) xs = .ok reports) : ∃ r, body = .ok r := by
  cases body with
  | ok r => exact ⟨r, rfl⟩
  | error e =>
      cases xs with
      | nil => exact absurd rfl hne
      | cons x xs => cases h

/-- Calls that all return have a list of results. -/
theorem exists_map_ok {f : α → Except ε β} {xs : List α} (h : ∀ x ∈ xs, ∃ y, f x = .ok y) :
    ∃ r : List β, xs.map f = r.map .ok := by
  induction xs with
  | nil => exact ⟨[], rfl⟩
  | cons x xs ih =>
      rw [List.forall_mem_cons] at h
      obtain ⟨⟨y, hy⟩, hxs⟩ := h
      obtain ⟨r, hr⟩ := ih hxs
      exact ⟨y :: r, by rw [List.map_cons, List.map_cons, hy, hr]⟩

end InMemoryFuzzing.Base

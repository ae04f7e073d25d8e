import Mathlib.Data.List.Infix

/-!
# Code with a trace and undefined behaviour

A computation that reports the events it causes. It goes on with a value, or it
has run into behaviour that its language leaves undefined; from there on every
continuation is allowed, so a safety property has to hold of all of them.
-/

namespace InMemoryFuzzing.Base

/-- The events of a computation, and the value it returns; `none` when it ends
in undefined behaviour. -/
structure Traced (ε α : Type) where
  events : List ε
  value : Option α

namespace Traced

variable {ε α β : Type}

/-- Continue with the value, if there is one. -/
def bind (x : Traced ε α) (f : α → Traced ε β) : Traced ε β :=
  match x.value with
  | none => ⟨x.events, none⟩
  | some a => ⟨x.events ++ (f a).events, (f a).value⟩

instance : Monad (Traced ε) where
  pure a := ⟨[], some a⟩
  bind := bind

/-- Report events. -/
def emit (events : List ε) : Traced ε Unit := ⟨events, some ()⟩

/-- Behaviour the language leaves undefined. -/
def undefined : Traced ε α := ⟨[], none⟩

/-- The event sequences the language allows: the recorded one, or, once the
behaviour is undefined, everything that begins with it. -/
def Behaviour (x : Traced ε α) (trace : List ε) : Prop :=
  match x.value with
  | some _ => trace = x.events
  | none => x.events <+: trace

/-- The computation causes these events and returns this value. -/
def Returns (x : Traced ε α) (events : List ε) (a : α) : Prop := x = ⟨events, some a⟩

theorem Returns.bind {x : Traced ε α} {f : α → Traced ε β} {events events' : List ε} {a : α} {b : β}
    (hx : x.Returns events a) (hf : (f a).Returns events' b) :
    (x >>= f).Returns (events ++ events') b := by
  subst hx
  show (⟨events ++ (f a).events, (f a).value⟩ : Traced ε β) = _
  rw [hf]

theorem returns_pure (a : α) : (pure a : Traced ε α).Returns [] a := rfl

theorem returns_emit (events : List ε) : (emit events).Returns events () := rfl

/-- A sequence that returns went through its first part with a value. -/
theorem Returns.of_bind {x : Traced ε α} {f : α → Traced ε β} {events : List ε} {b : β}
    (h : (x >>= f).Returns events b) :
    ∃ front a back, x.Returns front a ∧ (f a).Returns back b ∧ events = front ++ back := by
  obtain ⟨front, value⟩ := x
  cases value with
  | none =>
      have hvalue := congrArg Traced.value h
      cases hvalue
  | some a =>
      have hevents : front ++ (f a).events = events := congrArg Traced.events h
      have hvalue : (f a).value = some b := congrArg Traced.value h
      refine ⟨front, a, (f a).events, rfl, ?_, hevents.symm⟩
      show f a = _
      rw [← hvalue]

theorem not_returns_undefined {events : List ε} {a : α} :
    ¬(undefined : Traced ε α).Returns events a := by
  intro h
  have hvalue := congrArg Traced.value h
  cases hvalue

theorem Returns.of_pure {events : List ε} {a b : α} (h : (pure a : Traced ε α).Returns events b) :
    a = b ∧ events = [] :=
  ⟨Option.some.inj (congrArg Traced.value h), (congrArg Traced.events h).symm⟩

/-- What is true of every allowed event sequence excludes undefined behaviour,
if some event may not happen. -/
theorem returns_of_behaviours {x : Traced ε α} {P : List ε → Prop} {e : ε}
    (hall : ∀ trace, x.Behaviour trace → P trace) (hbad : ∀ trace, e ∈ trace → ¬P trace) :
    ∃ events a, x.Returns events a ∧ P events := by
  obtain ⟨events, value⟩ := x
  cases value with
  | some a => exact ⟨events, a, rfl, hall events rfl⟩
  | none =>
      have hb : (⟨events, none⟩ : Traced ε α).Behaviour (events ++ [e]) := List.prefix_append _ _
      exact absurd (hall _ hb) (hbad _ (by simp))

end Traced

end InMemoryFuzzing.Base

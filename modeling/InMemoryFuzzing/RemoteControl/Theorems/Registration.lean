import InMemoryFuzzing.RemoteControl.PipeClient

/-!
# Registering a pipe

`HandlerRegisteredPipe` takes the name in front of the queue for the id in the packet. An id that
is registered already makes `Add` raise behind `Dequeue` (`registration_iff`): the name is gone,
and the names behind it go to the wrong ids.
-/

namespace InMemoryFuzzing.RemoteControl

open Base Platform DotNet

/-- What the handler does with the `RPIR` packet of an id. -/
def registered (c : PipeClient) (pipeId : Int) : PipeClient × Option NetException :=
  handlerRegisteredPipe c "RPIR" (CLib.writeInt16T pipeId)

/-- The id gets the name in front of the queue, and nothing else changes. -/
structure Registers (c : PipeClient) (pipeId : Int) : Prop where
  returns : (registered c pipeId).2 = none
  named : ∀ pipeName rest, c.requestedPipes = pipeName :: rest →
    (registered c pipeId).1.registeredPipes pipeId = some pipeName ∧
    (registered c pipeId).1.requestedPipes = rest ∧
    (registered c pipeId).1.events = c.events ++ [.opened pipeId pipeName]
  others : ∀ other, other ≠ pipeId →
    (registered c pipeId).1.registeredPipes other = c.registeredPipes other
  unasked : c.requestedPipes = [] →
    (registered c pipeId).1.registeredPipes = c.registeredPipes ∧
    (registered c pipeId).1.requestedPipes = []

variable {c : PipeClient} {pipeId : Int}

theorem toInt16_id (hid : IsInt16 pipeId) : toInt16 (CLib.writeInt16T pipeId) 0 = .ok pipeId := by
  simpa using toInt16_writeInt16T hid []

theorem registered_unasked (hid : IsInt16 pipeId) (hqueue : c.requestedPipes = []) :
    registered c pipeId = (c.raise (.opened pipeId (c.getPipeName pipeId)), none) := by
  simp only [registered, handlerRegisteredPipe, toInt16_id hid, hqueue]

theorem registered_fresh (hid : IsInt16 pipeId) {pipeName : String} {rest : List String}
    (hqueue : c.requestedPipes = pipeName :: rest) (hfresh : c.registeredPipes pipeId = none) :
    registered c pipeId =
      ((({ c with requestedPipes := rest } : PipeClient).register pipeId pipeName).raise
        (.opened pipeId pipeName), none) := by
  simp only [registered, handlerRegisteredPipe, toInt16_id hid, hqueue, hfresh, Option.isNone_none,
    if_true]
  simp [PipeClient.getPipeName, PipeClient.register]

/-- The name in front of the queue is lost. -/
theorem registered_again (hid : IsInt16 pipeId) {pipeName old : String} {rest : List String}
    (hqueue : c.requestedPipes = pipeName :: rest) (hold : c.registeredPipes pipeId = some old) :
    registered c pipeId = ({ c with requestedPipes := rest }, some .duplicateKey) := by
  simp [registered, handlerRegisteredPipe, toInt16_id hid, hqueue, hold]

/-- If and only if no name is waiting, or the id is not registered. -/
theorem registration_iff (c : PipeClient) {pipeId : Int} (hid : IsInt16 pipeId) :
    Registers c pipeId ↔ c.requestedPipes = [] ∨ c.registeredPipes pipeId = none := by
  constructor
  · intro h
    cases hqueue : c.requestedPipes with
    | nil => exact .inl rfl
    | cons pipeName rest =>
        refine .inr ?_
        cases hold : c.registeredPipes pipeId with
        | none => rfl
        | some old =>
            have hreturns := h.returns
            rw [registered_again hid hqueue hold] at hreturns
            cases hreturns
  · intro h
    cases hqueue : c.requestedPipes with
    | nil =>
        have hsame := registered_unasked hid hqueue
        refine ⟨by rw [hsame], fun pipeName rest hcons => ?_, fun other _ => by rw [hsame]; rfl,
          fun _ => by rw [hsame]; exact ⟨rfl, hqueue⟩⟩
        rw [hqueue] at hcons
        cases hcons
    | cons pipeName rest =>
        have hfresh : c.registeredPipes pipeId = none := h.resolve_left (by simp [hqueue])
        have hnew := registered_fresh hid hqueue hfresh
        refine ⟨by rw [hnew], fun pipeName' rest' hcons => ?_, fun other hother => ?_,
          fun hnil => ?_⟩
        · rw [hqueue] at hcons
          cases hcons
          rw [hnew]
          simp [PipeClient.raise, PipeClient.register]
        · rw [hnew]
          simp [PipeClient.raise, PipeClient.register, hother]
        · rw [hqueue] at hnil
          cases hnil

/-- A client with two pipes that waits for two more. -/
def twoRegistered : PipeClient :=
  ⟨["c", "d"], fun i => if i = 0 then some "a" else if i = 1 then some "b" else none,
    [.opened 0 "a", .opened 1 "b"]⟩

/-- The next id. -/
theorem registration_iff_first : IsInt16 2 ∧ Registers twoRegistered 2 := by
  have hid : IsInt16 2 := by simp [IsInt16]
  exact ⟨hid, (registration_iff twoRegistered hid).mpr (.inr rfl)⟩

/-- The id of a pipe that has not been closed comes again, for another name. -/
theorem known_id_not_registered :
    let c : PipeClient := ⟨["b", "c"], fun i => if i = 0 then some "a" else none, []⟩
    IsInt16 0 ∧ (registered c 0).2 = some .duplicateKey ∧
      (registered c 0).1.requestedPipes = ["c"] ∧
      (registered c 0).1.registeredPipes 0 = some "a" ∧ ¬Registers c 0 := by
  intro c
  have hid : IsInt16 0 := by simp [IsInt16]
  have hagain : registered c 0 = ({ c with requestedPipes := ["c"] }, some .duplicateKey) :=
    registered_again hid rfl rfl
  refine ⟨hid, by rw [hagain], by rw [hagain], by rw [hagain]; rfl, fun h => ?_⟩
  have hreturns := h.returns
  rw [hagain] at hreturns
  cases hreturns

end InMemoryFuzzing.RemoteControl

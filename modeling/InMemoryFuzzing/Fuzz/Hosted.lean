import InMemoryFuzzing.Fuzz.Location
import InMemoryFuzzing.Fuzz.Rounds
import Mathlib.Data.List.Count

/-!
# One fuzz location among others

`Environment.withLocation` puts a `BaseFuzzLocation` into an arbitrary environment,
which keeps the other locations and the technique of this one. What a session does to
it (`FuzzState.Describes`) is a matter of the location alone: `LocationState.round`, once
for each `RestoreAndFuzz`, whatever the rest does.
-/

namespace InMemoryFuzzing.Fuzz

open Base Platform DotNet DataLog

variable {W S L G : Type}

/-! ## The location -/

/-- The location, how often the snapshot has been restored, and for each call of `Run`
how often it had been by then. -/
structure LocationState (G : Type) where
  location : BaseFuzzLocation G
  restores : Nat
  runs : List Nat

/-- The world of the others, and the location. -/
structure Hosted (W G : Type) where
  world : W
  state : LocationState G

/-- Asked whether it is triggered. -/
def LocationState.isTriggered (s : LocationState G) (triggerType : TriggerEnum) :
    Bool × LocationState G :=
  let (triggered, location) := s.location.isTriggered triggerType none
  (triggered, { s with location := location })

/-- `Run`. -/
def LocationState.run (s : LocationState G) : LocationState G :=
  { s with location := s.location.run, runs := s.runs ++ [s.restores] }

variable [DecidableEq L]

/-- The environment in which `l₀` is this location; `env` says what its technique does. -/
def Environment.withLocation (env : Environment W S L) (l₀ : L) : Environment (Hosted W G) S L where
  isFinished l h :=
    if l = l₀ then (h.state.location.isFinished, h)
    else ((env.isFinished l h.world).1, { h with world := (env.isFinished l h.world).2 })
  isTriggered l triggerType h :=
    if l = l₀ then
      ((h.state.isTriggered triggerType).1, { h with state := (h.state.isTriggered triggerType).2 })
    else ((env.isTriggered l triggerType h.world).1,
      { h with world := (env.isTriggered l triggerType h.world).2 })
  run l snapshot h :=
    ((env.run l snapshot h.world).1,
      ⟨(env.run l snapshot h.world).2, if l = l₀ then h.state.run else h.state⟩)
  nextFuzzRun l h :=
    if l = l₀ then { h with state := { h.state with location := h.state.location.nextFuzzRun } }
    else { h with world := env.nextFuzzRun l h.world }
  createSnapshot h := ((env.createSnapshot h.world).1, { h with world := (env.createSnapshot h.world).2 })
  restore snapshot h :=
    ⟨env.restore snapshot h.world, { h.state with restores := h.state.restores + 1 }⟩
  debugContinue stop h := { h with world := env.debugContinue stop h.world }
  finishedFuzzRun runPrefix h := { h with world := env.finishedFuzzRun runPrefix h.world }
  startingFuzzRun runPrefix h := { h with world := env.startingFuzzRun runPrefix h.world }

/-! ## A round of the location alone -/

namespace LocationState

/-- A pass of `InvokeFuzzLocations` over a location that is not finished. -/
def pass (triggerType : TriggerEnum) (s : LocationState G) : LocationState G :=
  if (s.isTriggered triggerType).1 then (s.isTriggered triggerType).2.run
  else (s.isTriggered triggerType).2

/-- A pass, for a location that is in the description or not. -/
def invoke (triggerType : TriggerEnum) : Bool × LocationState G → Bool × LocationState G
  | (false, s) => (false, s)
  | (true, s) => if s.location.isFinished then (false, s) else (true, s.pass triggerType)

/-- `RestoreAndFuzz`. -/
def round (s : Bool × LocationState G) : Bool × LocationState G :=
  let (listed, s) := invoke .end_ s
  let s := { s with restores := s.restores + 1 }
  let s := if listed then { s with location := s.location.nextFuzzRun } else s
  invoke .start (listed, s)

/-- No call of `Run` is forgotten. -/
theorem runs_invoke (triggerType : TriggerEnum) (s : Bool × LocationState G) :
    s.2.runs <+: (invoke triggerType s).2.runs := by
  obtain ⟨listed, s⟩ := s
  cases listed with
  | false => exact List.prefix_refl _
  | true =>
      rw [invoke]
      split
      · exact List.prefix_refl s.runs
      · show s.runs <+: (pass triggerType s).runs
        rw [pass]
        split
        · exact List.prefix_append s.runs [s.restores]
        · exact List.prefix_refl s.runs

theorem runs_round (s : Bool × LocationState G) : s.2.runs <+: (round s).2.runs := by
  have hend := runs_invoke .end_ s
  unfold round
  generalize invoke .end_ s = mid at hend
  obtain ⟨listed, mid⟩ := mid
  refine hend.trans (List.IsPrefix.trans ?_ (runs_invoke .start _))
  dsimp only
  split <;> exact List.prefix_refl _

theorem runs_iterate {m n : Nat} (h : m ≤ n) (s : Bool × LocationState G) :
    (round^[m] s).2.runs <+: (round^[n] s).2.runs := by
  induction n, h using Nat.le_induction with
  | base => exact List.prefix_refl _
  | succ n _ ih =>
      rw [Function.iterate_succ_apply']
      exact ih.trans (runs_round _)

end LocationState

/-! ## The passes of the controller -/

/-- In this state `l₀` is as given: in the description once, or not at all. -/
structure FuzzState.Describes (l₀ : L) (st : FuzzState (Hosted W G) S L)
    (s : Bool × LocationState G) : Prop where
  state : st.world.state = s.2
  listed : st.fuzzLocation.count l₀ = if s.1 then 1 else 0

variable (env : Environment W S L) {l₀ : L}

/-- Another location. -/
theorem invokeFuzzLocation_other {l : L} (h : l ≠ l₀) (triggerType : TriggerEnum)
    (i : Invocation (Hosted W G) S L) :
    (invokeFuzzLocation (env.withLocation l₀) triggerType i l).world.state = i.world.state ∧
      (invokeFuzzLocation (env.withLocation l₀) triggerType i l).fuzzLocationsToRemove.count l₀ =
        i.fuzzLocationsToRemove.count l₀ := by
  unfold invokeFuzzLocation Environment.withLocation
  simp only [if_neg h]
  split
  · refine ⟨rfl, ?_⟩
    rw [List.count_append, List.count_singleton, if_neg (by simpa using h), Nat.add_zero]
  · split <;> exact ⟨rfl, rfl⟩

theorem invokeFuzzLocation_others {locations : List L} (h : l₀ ∉ locations)
    (triggerType : TriggerEnum) (i : Invocation (Hosted W G) S L) :
    (locations.foldl (invokeFuzzLocation (env.withLocation l₀) triggerType) i).world.state =
        i.world.state ∧
      (locations.foldl (invokeFuzzLocation (env.withLocation l₀) triggerType)
        i).fuzzLocationsToRemove.count l₀ = i.fuzzLocationsToRemove.count l₀ := by
  induction locations generalizing i with
  | nil => exact ⟨rfl, rfl⟩
  | cons l rest ih =>
      rw [List.mem_cons, not_or] at h
      obtain ⟨hstate, hcount⟩ :=
        invokeFuzzLocation_other env (Ne.symm h.1) triggerType i
      obtain ⟨hstate', hcount'⟩ :=
        ih h.2 (invokeFuzzLocation (env.withLocation l₀) triggerType i l)
      rw [List.foldl_cons]
      exact ⟨hstate'.trans hstate, hcount'.trans hcount⟩

/-- The location itself. -/
theorem invokeFuzzLocation_self (l₀ : L) (triggerType : TriggerEnum) (i : Invocation (Hosted W G) S L) :
    (invokeFuzzLocation (env.withLocation l₀) triggerType i l₀).world.state =
        (LocationState.invoke triggerType (true, i.world.state)).2 ∧
      (invokeFuzzLocation (env.withLocation l₀) triggerType i l₀).fuzzLocationsToRemove.count l₀ =
        i.fuzzLocationsToRemove.count l₀ +
          if (LocationState.invoke triggerType (true, i.world.state)).1 then 0 else 1 := by
  unfold invokeFuzzLocation Environment.withLocation LocationState.invoke LocationState.pass
  simp only [if_true]
  split
  · refine ⟨rfl, ?_⟩
    rw [List.count_append, List.count_singleton_self]
    rfl
  · split <;> exact ⟨rfl, rfl⟩

/-- A pass of the controller is a pass over the location. -/
theorem invokeFuzzLocations_describes {st : FuzzState (Hosted W G) S L}
    {s : Bool × LocationState G} (h : st.Describes l₀ s) (triggerType : TriggerEnum)
    (snapshot : S) :
    (invokeFuzzLocations (env.withLocation l₀) triggerType snapshot st).2.Describes l₀
      (LocationState.invoke triggerType s) := by
  obtain ⟨listed, s⟩ := s
  have hstate : st.world.state = s := h.state
  have hlisted := h.listed
  unfold invokeFuzzLocations
  cases listed with
  | false =>
      have hnot : l₀ ∉ st.fuzzLocation := List.count_eq_zero.mp hlisted
      obtain ⟨hworld, hcount⟩ := invokeFuzzLocation_others env hnot triggerType
        ⟨[], snapshot, st.world⟩
      refine ⟨hworld.trans hstate, ?_⟩
      show (List.foldl List.erase st.fuzzLocation _).count l₀ = 0
      rw [← List.diff_eq_foldl, List.count_diff, List.count_eq_zero.mpr hnot, Nat.zero_sub]
  | true =>
      have hone : st.fuzzLocation.count l₀ = 1 := hlisted
      obtain ⟨front, back, hsplit⟩ := List.append_of_mem
        (List.count_pos_iff.mp (hone ▸ Nat.one_pos : 0 < st.fuzzLocation.count l₀))
      have hboth : l₀ ∉ front ∧ l₀ ∉ back := by
        rw [hsplit, List.count_append, List.count_cons_self] at hone
        exact ⟨List.count_eq_zero.mp (by omega), List.count_eq_zero.mp (by omega)⟩
      obtain ⟨hworld, hcount⟩ := invokeFuzzLocation_others env hboth.1 triggerType
        ⟨[], snapshot, st.world⟩
      rw [hsplit, List.foldl_append, List.foldl_cons]
      generalize front.foldl (invokeFuzzLocation (env.withLocation l₀) triggerType)
        ⟨[], snapshot, st.world⟩ = i at hworld hcount
      obtain ⟨hworld', hcount'⟩ := invokeFuzzLocation_self env l₀ triggerType i
      obtain ⟨hworld'', hcount''⟩ := invokeFuzzLocation_others env hboth.2 triggerType
        (invokeFuzzLocation (env.withLocation l₀) triggerType i l₀)
      have hi : i.world.state = s := hworld.trans hstate
      rw [hi] at hworld' hcount'
      refine ⟨hworld''.trans hworld', ?_⟩
      show (List.foldl List.erase (front ++ l₀ :: back) _).count l₀ = _
      rw [← List.diff_eq_foldl, List.count_diff, hcount'', hcount', hcount, ← hsplit, hone]
      show 1 - (0 + _) = _
      split <;> rfl

theorem nextFuzzRun_other {locations : List L} (h : l₀ ∉ locations) (w : Hosted W G) :
    (locations.foldl (fun world l => (env.withLocation l₀).nextFuzzRun l world) w).state =
      w.state := by
  induction locations generalizing w with
  | nil => rfl
  | cons l rest ih =>
      rw [List.mem_cons, not_or] at h
      rw [List.foldl_cons, ih h.2]
      show (if l = l₀ then _ else _ : Hosted W G).state = _
      rw [if_neg (Ne.symm h.1)]

/-- `NextFuzzRun` of the description reaches the location if it is in it. -/
theorem nextFuzzRun_describes {st : FuzzState (Hosted W G) S L} {listed : Bool}
    {s : LocationState G} (h : st.Describes l₀ (listed, s)) :
    (nextFuzzRun (env.withLocation l₀) st).Describes l₀
      (listed, if listed then { s with location := s.location.nextFuzzRun } else s) := by
  have hstate : st.world.state = s := h.state
  have hlisted := h.listed
  refine ⟨?_, hlisted⟩
  show (st.fuzzLocation.foldl (fun world l => (env.withLocation l₀).nextFuzzRun l world)
    st.world).state = _
  cases listed with
  | false =>
      rw [nextFuzzRun_other env (List.count_eq_zero.mp hlisted), hstate]
      rfl
  | true =>
      have hone : st.fuzzLocation.count l₀ = 1 := hlisted
      obtain ⟨front, back, hsplit⟩ := List.append_of_mem
        (List.count_pos_iff.mp (hone ▸ Nat.one_pos : 0 < st.fuzzLocation.count l₀))
      have hboth : l₀ ∉ front ∧ l₀ ∉ back := by
        rw [hsplit, List.count_append, List.count_cons_self] at hone
        exact ⟨List.count_eq_zero.mp (by omega), List.count_eq_zero.mp (by omega)⟩
      rw [hsplit, List.foldl_append, List.foldl_cons, nextFuzzRun_other env hboth.2]
      have hfront := nextFuzzRun_other env hboth.1 st.world
      rw [hstate] at hfront
      generalize front.foldl (fun world l => (env.withLocation l₀).nextFuzzRun l world) st.world =
        w at hfront
      show (if l₀ = l₀ then _ else _ : Hosted W G).state = _
      rw [if_pos rfl, ← hfront]
      rfl

/-- `RestoreAndFuzz` of the controller is a round of the location. -/
theorem restoreAndFuzz_describes {st : FuzzState (Hosted W G) S L} {s : Bool × LocationState G}
    (h : st.Describes l₀ s) (snapshot : S) :
    (restoreAndFuzz (env.withLocation l₀) snapshot st).Describes l₀ (LocationState.round s) := by
  have hend := invokeFuzzLocations_describes env h .end_ snapshot
  unfold restoreAndFuzz LocationState.round
  generalize hmid : invokeFuzzLocations (env.withLocation l₀) .end_ snapshot st = mid at hend
  generalize LocationState.invoke .end_ s = t at hend
  obtain ⟨listed, t⟩ := t
  apply invokeFuzzLocations_describes
  apply nextFuzzRun_describes
  refine ⟨?_, hend.listed⟩
  show { mid.2.world.state with restores := mid.2.world.state.restores + 1 } = _
  rw [hend.state]

/-- The location after a number of rounds. -/
theorem describes_rounds (env : Environment W S L) (l₀ : L) (s : Bool × LocationState G) :
    RoundInvariant (env.withLocation l₀)
      fun n st => st.Describes l₀ (LocationState.round^[n] s) where
  snapshot _ _ h := ⟨h.state, h.listed⟩
  log _ _ _ h := ⟨h.state, h.listed⟩
  continued _ _ _ h := ⟨h.state, h.listed⟩
  round n st snapshot h := by
    rw [Function.iterate_succ_apply']
    exact restoreAndFuzz_describes env h snapshot

/-- The location at the end of a session. -/
theorem session_describes {env : Environment W S L} {bps : Breakpoints} {stops examined : List DebuggerStop}
    {st st' : FuzzState (Hosted W G) S L} {s : Bool × LocationState G} (h : st.Describes l₀ s)
    (hnone : st.snapshot = none)
    (hfuzz : fuzz (env.withLocation l₀) bps stops st = .ok (st', examined)) :
    st'.Describes l₀ (LocationState.round^[(runEnds bps examined).length] s) :=
  (describes_rounds env l₀ s).fuzz ⟨h.state, h.listed⟩ hnone hfuzz

end InMemoryFuzzing.Fuzz

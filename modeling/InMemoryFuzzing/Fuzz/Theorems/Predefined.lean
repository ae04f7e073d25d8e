import InMemoryFuzzing.Fuzz.Predefined

/-!
# Predefined locations do not interfere

The objects of a wrapper are its own: `Views` says which location they make up, and a call
changes no other object (`call_views`). So the shared base location, whose fields are
swapped in before each call, simulates the private ones (`predefined_private`).
-/

namespace InMemoryFuzzing.Fuzz

open Base Platform DotNet

variable {G : Type}

/-! ## The objects of a wrapper -/

/-- The objects of the components make up the location. -/
structure Views (s : SharedLocation G) (c : ChangeableComponents) (l : BaseFuzzLocation G) :
    Prop where
  stopCondition : Holds s.stopConditions c.stopCondition.toList l.stopCondition.toList
  dataGenerator : Holds s.dataGenerators c.dataGenerator.toList l.dataGenerator.toList
  triggers : Holds s.triggers (c.triggers.getD []) (l.triggers.getD [])
  noTriggers : c.triggers.isSome = l.triggers.isSome
  distinct : (c.triggers.getD []).Nodup
  isPreCondition : c.isPreCondition = l.isPreCondition

/-- No object belongs to both. -/
structure Separate (c d : ChangeableComponents) : Prop where
  stopCondition : ∀ r ∈ d.stopCondition.toList, r ∉ c.stopCondition.toList
  dataGenerator : ∀ r ∈ d.dataGenerator.toList, r ∉ c.dataGenerator.toList
  triggers : ∀ r ∈ d.triggers.getD [], r ∉ c.triggers.getD []

/-- At most the objects of the components are changed. -/
structure Touches (c : ChangeableComponents) (s s' : SharedLocation G) : Prop where
  stopCondition : ∀ r ∉ c.stopCondition.toList, s'.stopConditions[r]? = s.stopConditions[r]?
  dataGenerator : ∀ r ∉ c.dataGenerator.toList, s'.dataGenerators[r]? = s.dataGenerators[r]?
  triggers : ∀ r ∉ c.triggers.getD [], s'.triggers[r]? = s.triggers[r]?
  changeableComponents : s'.changeableComponents = s.changeableComponents

theorem Views.of_touches {s s' : SharedLocation G} {c d : ChangeableComponents}
    {l : BaseFuzzLocation G} (h : Views s d l) (htouches : Touches c s s') (hsep : Separate c d) :
    Views s' d l where
  stopCondition := h.stopCondition.congr fun r hr =>
    htouches.stopCondition r (hsep.stopCondition r hr)
  dataGenerator := h.dataGenerator.congr fun r hr =>
    htouches.dataGenerator r (hsep.dataGenerator r hr)
  triggers := h.triggers.congr fun r hr => htouches.triggers r (hsep.triggers r hr)
  noTriggers := h.noTriggers
  distinct := h.distinct
  isPreCondition := h.isPreCondition

/-- The loop over the triggers of a wrapper. -/
theorem anyTriggered_holds (trigger : TriggerEnum) (data : Option UInt64) {refs : List Nat}
    {objects ts : List Trigger} (h : Holds objects refs ts) (hnodup : refs.Nodup) :
    (SharedLocation.anyTriggered trigger data refs objects).1 =
        (BaseFuzzLocation.anyTriggered trigger data ts).1 ∧
      Holds (SharedLocation.anyTriggered trigger data refs objects).2 refs
        (BaseFuzzLocation.anyTriggered trigger data ts).2 ∧
      ∀ r ∉ refs, (SharedLocation.anyTriggered trigger data refs objects).2[r]? = objects[r]? := by
  induction refs generalizing objects ts with
  | nil =>
      cases h
      exact ⟨rfl, List.Forall₂.nil, fun _ _ => rfl⟩
  | cons r rest ih =>
      obtain ⟨hnot, hrest⟩ := List.nodup_cons.mp hnodup
      cases h with
      | @cons _ t _ ts hr htail =>
          have hlt : r < objects.length := (List.getElem?_eq_some_iff.mp hr).1
          -- the first trigger answers, and its object is replaced
          have hlater : ∀ t', Holds (objects.set r t') rest ts := by
            intro t'
            refine Holds.congr htail ?_
            intro r' hr'
            have hne : r ≠ r' := fun heq => hnot (heq ▸ hr')
            exact List.getElem?_set_ne hne
          rw [SharedLocation.anyTriggered, hr, BaseFuzzLocation.anyTriggered]
          dsimp only
          generalize t.isTriggered trigger data = asked
          obtain ⟨triggered, t'⟩ := asked
          cases triggered with
          | true =>
              refine ⟨rfl, ?_, ?_⟩
              · exact List.Forall₂.cons (List.getElem?_set_self hlt) (hlater t')
              · intro r' hr'
                rw [List.mem_cons, not_or] at hr'
                exact List.getElem?_set_ne (Ne.symm hr'.1)
          | false =>
              obtain ⟨hanswer, hholds, hother⟩ := ih (hlater t') hrest
              refine ⟨hanswer, ?_, ?_⟩
              · refine List.Forall₂.cons ?_ hholds
                exact (hother r hnot).trans (List.getElem?_set_self hlt)
              · intro r' hr'
                rw [List.mem_cons, not_or] at hr'
                exact (hother r' hr'.2).trans (List.getElem?_set_ne (Ne.symm hr'.1))

section

variable {s : SharedLocation G} {l : BaseFuzzLocation G}

theorem triggers_map (l : BaseFuzzLocation G) (f : Trigger → Trigger) :
    (l.triggers.map fun triggers => triggers.map f).getD [] = (l.triggers.getD []).map f := by
  cases l.triggers <;> rfl

/-- A call on the shared location is a call on the location that its fields make up. -/
theorem call_views (c : LocationCall G) (h : Views s s.fields l) :
    (s.call c).1 = (l.call c).1 ∧ Views (s.call c).2 s.fields (l.call c).2 ∧
      Touches s.fields s (s.call c).2 := by
  have hnone : Touches s.fields s s := ⟨fun _ _ => rfl, fun _ _ => rfl, fun _ _ => rfl, rfl⟩
  have hnext : Holds (modifyAll Trigger.nextFuzzRun (s.fields.triggers.getD []) s.triggers)
      (s.fields.triggers.getD []) (l.nextFuzzRun.triggers.getD []) := by
    rw [BaseFuzzLocation.nextFuzzRun, triggers_map]
    exact h.triggers.modifyAll _ h.distinct
  have hsome : s.fields.triggers.isSome = l.nextFuzzRun.triggers.isSome := by
    rw [h.noTriggers, BaseFuzzLocation.nextFuzzRun, Option.isSome_map]
  cases c with
  | isTriggered trigger data =>
      unfold SharedLocation.call BaseFuzzLocation.call BaseFuzzLocation.isTriggered
      dsimp only
      have htriggers := h.triggers
      have hdistinct := h.distinct
      cases hrefs : s.fields.triggers with
      | none =>
          have hl : l.triggers = none := by
            rw [← Option.isNone_iff_eq_none, ← Option.not_isSome, ← h.noTriggers, hrefs]
            rfl
          rw [hl]
          exact ⟨rfl, h, hnone⟩
      | some refs =>
          obtain ⟨ts, hts⟩ : ∃ ts, l.triggers = some ts := by
            rw [← Option.isSome_iff_exists, ← h.noTriggers, hrefs]
            rfl
          rw [hrefs, hts] at htriggers
          rw [hrefs] at hdistinct
          obtain ⟨hanswer, hholds, hother⟩ := anyTriggered_holds trigger data htriggers hdistinct
          rw [hts]
          refine ⟨congrArg LocationAnswer.answered hanswer, ?_, ?_⟩
          · exact { h with
              triggers := by rw [hrefs]; exact hholds
              noTriggers := by rw [hrefs]; rfl }
          · exact { hnone with
              triggers := by rw [hrefs]; exact hother }
  | isFinished =>
      have hstop := h.stopCondition.option
      unfold SharedLocation.call BaseFuzzLocation.call BaseFuzzLocation.isFinished
      dsimp only
      rw [hstop]
      cases l.stopCondition with
      | none => exact ⟨rfl, h, hnone⟩
      | some stopCondition => exact ⟨rfl, h, hnone⟩
  | nextFuzzRun =>
      refine ⟨rfl, ?_, ?_⟩
      · exact { h with triggers := hnext, noTriggers := hsome }
      · exact { hnone with triggers := fun r hr => modifyAll_other hr s.triggers }
  | run use =>
      refine ⟨congrArg LocationAnswer.used h.dataGenerator.option, ?_, ?_⟩
      · exact ⟨h.stopCondition.modifyOption _, h.dataGenerator.modifyOption use, hnext, hsome,
          h.distinct, h.isPreCondition⟩
      · exact ⟨fun r hr => modifyAll_other hr s.stopConditions,
          fun r hr => modifyAll_other hr s.dataGenerators,
          fun r hr => modifyAll_other hr s.triggers, rfl⟩
  | setLogger set =>
      have hset := h.dataGenerator.modifyOption set
      refine ⟨congrArg LocationAnswer.configured hset.option, ?_, ?_⟩
      · exact { h with dataGenerator := hset }
      · exact { hnone with dataGenerator := fun r hr => modifyAll_other hr s.dataGenerators }

end

/-! ## A new wrapper -/

/-- Objects have been added. -/
structure Extends (s s' : SharedLocation G) : Prop where
  stopConditions : ∃ more, s'.stopConditions = s.stopConditions ++ more
  dataGenerators : ∃ more, s'.dataGenerators = s.dataGenerators ++ more
  triggers : ∃ more, s'.triggers = s.triggers ++ more

theorem Views.of_extends {s s' : SharedLocation G} {c : ChangeableComponents}
    {l : BaseFuzzLocation G} (h : Views s c l) (hext : Extends s s') : Views s' c l := by
  obtain ⟨⟨_, hstop⟩, ⟨_, hgen⟩, ⟨_, htriggers⟩⟩ := hext
  exact { h with
    stopCondition := hstop ▸ h.stopCondition.append _
    dataGenerator := hgen ▸ h.dataGenerator.append _
    triggers := htriggers ▸ h.triggers.append _ }

/-- The components are made of objects that were not there. -/
structure Unused (s : SharedLocation G) (c : ChangeableComponents) : Prop where
  stopCondition : ∀ r ∈ c.stopCondition.toList, s.stopConditions.length ≤ r
  dataGenerator : ∀ r ∈ c.dataGenerator.toList, s.dataGenerators.length ≤ r
  triggers : ∀ r ∈ c.triggers.getD [], s.triggers.length ≤ r

theorem Unused.separate {s : SharedLocation G} {c d : ChangeableComponents}
    {l : BaseFuzzLocation G} (h : Unused s c) (hviews : Views s d l) :
    Separate c d ∧ Separate d c := by
  refine ⟨⟨?_, ?_, ?_⟩, ⟨?_, ?_, ?_⟩⟩
  · intro r hd hc
    exact absurd (hviews.stopCondition.lt_length hd) (Nat.not_lt.mpr (h.stopCondition r hc))
  · intro r hd hc
    exact absurd (hviews.dataGenerator.lt_length hd) (Nat.not_lt.mpr (h.dataGenerator r hc))
  · intro r hd hc
    exact absurd (hviews.triggers.lt_length hd) (Nat.not_lt.mpr (h.triggers r hc))
  · intro r hc hd
    exact absurd (hviews.stopCondition.lt_length hd) (Nat.not_lt.mpr (h.stopCondition r hc))
  · intro r hc hd
    exact absurd (hviews.dataGenerator.lt_length hd) (Nat.not_lt.mpr (h.dataGenerator r hc))
  · intro r hc hd
    exact absurd (hviews.triggers.lt_length hd) (Nat.not_lt.mpr (h.triggers r hc))

/-- `InitChanges` raises in both cases, or makes the same location out of new objects. -/
theorem initChanges_views (supports : Supports)
    (parseRegionAddress : Option (List Char) → Option UInt64) (e : Element G)
    (s : SharedLocation G) :
    (∃ s', s.initChanges supports parseRegionAddress e = (none, s') ∧
      BaseFuzzLocation.initChanges supports parseRegionAddress e = none ∧ Extends s s' ∧
      s'.changeableComponents = s.changeableComponents) ∨
    (∃ c l s', s.initChanges supports parseRegionAddress e =
        (some s.changeableComponents.length, s') ∧
      BaseFuzzLocation.initChanges supports parseRegionAddress e = some l ∧ Extends s s' ∧
      s'.changeableComponents = s.changeableComponents ++ [c] ∧ Views s' c l ∧ Unused s c) := by
  unfold SharedLocation.initChanges BaseFuzzLocation.initChanges
  have hempty : ∀ {α : Type} (objects : List α), ∃ more, objects = objects ++ more :=
    fun objects => ⟨[], (List.append_nil objects).symm⟩
  generalize e.newStopCondition supports = stopCondition
  generalize e.newDataGenerator supports = dataGenerator
  generalize e.newTriggers supports parseRegionAddress = triggers
  cases stopCondition with
  | none => exact Or.inl ⟨_, rfl, rfl, ⟨hempty _, hempty _, hempty _⟩, rfl⟩
  | some stopCondition =>
      cases dataGenerator with
      | none => exact Or.inl ⟨_, rfl, rfl, ⟨⟨_, rfl⟩, hempty _, hempty _⟩, rfl⟩
      | some dataGenerator =>
          cases triggers with
          | none => exact Or.inl ⟨_, rfl, rfl, ⟨⟨_, rfl⟩, ⟨_, rfl⟩, hempty _⟩, rfl⟩
          | some triggers =>
              refine Or.inr ⟨_, _, _, rfl, rfl, ⟨⟨_, rfl⟩, ⟨_, rfl⟩, ⟨_, rfl⟩⟩, rfl, ?_, ?_⟩
              · refine ⟨Holds.fresh_option _ _, Holds.fresh_option _ _, ?_, ?_, ?_, rfl⟩
                · cases triggers with
                  | none => exact List.Forall₂.nil
                  | some triggers => exact Holds.fresh _ _
                · cases triggers <;> rfl
                · cases triggers with
                  | none => exact List.nodup_nil
                  | some triggers => exact List.nodup_range'
              · refine ⟨?_, ?_, ?_⟩
                · intro r hr
                  cases stopCondition with
                  | none => cases hr
                  | some _ => exact Nat.le_of_eq (List.mem_singleton.mp hr).symm
                · intro r hr
                  cases dataGenerator with
                  | none => cases hr
                  | some _ => exact Nat.le_of_eq (List.mem_singleton.mp hr).symm
                · intro r hr
                  cases triggers with
                  | none => cases hr
                  | some _ => exact (List.mem_range'_1.mp hr).1

/-! ## The simulation -/

/-- The objects of the wrappers make up the private locations, and no two wrappers share
one. -/
structure Represents (s : PredefinedLocations G) (locations : List (BaseFuzzLocation G)) :
    Prop where
  changeableIds : s.changeableIds = (List.range locations.length).map some
  length : s.childLocation.changeableComponents.length = locations.length
  views : ∀ (i : Nat) c l, s.childLocation.changeableComponents[i]? = some c → locations[i]? = some l →
    Views s.childLocation c l
  separate : ∀ (i j : Nat) c d, i ≠ j → s.childLocation.changeableComponents[i]? = some c →
    s.childLocation.changeableComponents[j]? = some d → Separate c d

/-- What the fields of the shared location refer to does not matter. -/
theorem Views.fields {s : SharedLocation G} {d : ChangeableComponents} {l : BaseFuzzLocation G}
    (h : Views s d l) (c : ChangeableComponents) : Views { s with fields := c } d l :=
  ⟨h.stopCondition, h.dataGenerator, h.triggers, h.noTriggers, h.distinct, h.isPreCondition⟩

namespace Represents

variable {s : PredefinedLocations G} {locations : List (BaseFuzzLocation G)}

/-- The wrappers by their number. -/
theorem lookup (h : Represents s locations) (i : Nat) :
    s.changeableIds[i]? = none ∧ locations[i]? = none ∨
    ∃ c l, s.changeableIds[i]? = some (some i) ∧
      s.childLocation.changeableComponents[i]? = some c ∧ locations[i]? = some l := by
  rw [h.changeableIds, List.getElem?_map]
  by_cases hi : i < locations.length
  · have hi' : i < s.childLocation.changeableComponents.length := h.length ▸ hi
    right
    refine ⟨_, _, ?_, List.getElem?_eq_getElem hi', List.getElem?_eq_getElem hi⟩
    rw [List.getElem?_range hi]
    rfl
  · left
    rw [Nat.not_lt] at hi
    refine ⟨?_, List.getElem?_eq_none hi⟩
    rw [List.getElem?_eq_none (by rwa [List.length_range])]
    rfl

/-- A call on wrapper `i`. -/
theorem call (h : Represents s locations) {i : Nat} {c : ChangeableComponents}
    {l : BaseFuzzLocation G} (hc : s.childLocation.changeableComponents[i]? = some c)
    (hl : locations[i]? = some l) (x : LocationCall G) :
    ({ s.childLocation with fields := c }.call x).1 = (l.call x).1 ∧
      Represents { s with childLocation := ({ s.childLocation with fields := c }.call x).2 }
        (locations.set i (l.call x).2) := by
  have hviews : Views { s.childLocation with fields := c } c l := (h.views i c l hc hl).fields c
  obtain ⟨hanswer, hown, htouches⟩ := call_views x hviews
  refine ⟨hanswer, ?_, ?_, ?_, ?_⟩
  · rw [List.length_set]
    exact h.changeableIds
  · rw [List.length_set]
    exact (congrArg List.length htouches.changeableComponents).trans h.length
  · intro j d m hd hm
    rw [htouches.changeableComponents] at hd
    by_cases hj : j = i
    · subst hj
      have hlt : j < locations.length := (List.getElem?_eq_some_iff.mp hl).1
      rw [List.getElem?_set_self hlt, Option.some.injEq] at hm
      have hsame : d = c := Option.some.inj (hd.symm.trans hc)
      rw [hsame, ← hm]
      exact hown
    · rw [List.getElem?_set_ne (Ne.symm hj)] at hm
      have hother : Views { s.childLocation with fields := c } d m := (h.views j d m hd hm).fields c
      exact hother.of_touches htouches (h.separate i j c d (Ne.symm hj) hc hd)
  · intro j k d e hne hd he
    rw [htouches.changeableComponents] at hd he
    exact h.separate j k d e hne hd he

/-- `InitChanges` of a wrapper that raises. -/
theorem failed (h : Represents s locations) {child : SharedLocation G}
    (hext : Extends s.childLocation child)
    (hsame : child.changeableComponents = s.childLocation.changeableComponents) :
    Represents { s with childLocation := child } locations := by
  refine ⟨h.changeableIds, (congrArg List.length hsame).trans h.length, ?_, ?_⟩
  · intro i c l hc hl
    rw [hsame] at hc
    exact (h.views i c l hc hl).of_extends hext
  · intro i j c d hne hc hd
    rw [hsame] at hc hd
    exact h.separate i j c d hne hc hd

/-- A new wrapper. -/
theorem added (h : Represents s locations) {child : SharedLocation G} {c : ChangeableComponents}
    {l : BaseFuzzLocation G} (hext : Extends s.childLocation child)
    (hcomponents : child.changeableComponents = s.childLocation.changeableComponents ++ [c])
    (hviews : Views child c l) (hunused : Unused s.childLocation c) :
    Represents ⟨child, s.changeableIds ++ [some s.childLocation.changeableComponents.length]⟩
      (locations ++ [l]) := by
  -- a position is an old one, or that of the new wrapper
  have hold : ∀ {i : Nat} {d}, child.changeableComponents[i]? = some d →
      s.childLocation.changeableComponents[i]? = some d ∨
        i = s.childLocation.changeableComponents.length ∧ d = c := by
    intro i d hd
    rw [hcomponents, List.getElem?_append] at hd
    split at hd
    · exact Or.inl hd
    · right
      have hlt : i < (s.childLocation.changeableComponents ++ [c]).length := by
        rw [List.length_append, List.length_singleton]
        obtain ⟨hlt, -⟩ := List.getElem?_eq_some_iff.mp hd
        rw [List.length_singleton] at hlt
        omega
      rw [List.length_append, List.length_singleton] at hlt
      have hi : i = s.childLocation.changeableComponents.length := by omega
      rw [hi, Nat.sub_self] at hd
      exact ⟨hi, (Option.some.inj hd).symm⟩
  have hseparate : ∀ {i : Nat} {d}, s.childLocation.changeableComponents[i]? = some d →
      Separate c d ∧ Separate d c := by
    intro i d hd
    have hlt : i < locations.length := h.length ▸ (List.getElem?_eq_some_iff.mp hd).1
    exact hunused.separate (h.views i d _ hd (List.getElem?_eq_getElem hlt))
  refine ⟨?_, ?_, ?_, ?_⟩
  · show s.changeableIds ++ _ = _
    rw [h.changeableIds, h.length, List.length_append, List.length_singleton, List.range_succ,
      List.map_append]
    rfl
  · rw [hcomponents, List.length_append, List.length_append, h.length]
    rfl
  · intro i d m hd hm
    rcases hold hd with hd | ⟨rfl, rfl⟩
    · have hlt : i < locations.length := h.length ▸ (List.getElem?_eq_some_iff.mp hd).1
      rw [List.getElem?_append_left hlt] at hm
      exact (h.views i d m hd hm).of_extends hext
    · rw [h.length, List.getElem?_append_right (Nat.le_refl _), Nat.sub_self] at hm
      cases hm
      exact hviews
  · intro i j d e hne hd he
    rcases hold hd with hd | ⟨hi, rfl⟩
    · rcases hold he with he | ⟨-, rfl⟩
      · exact h.separate i j d e hne hd he
      · exact (hseparate hd).2
    · rcases hold he with he | ⟨hj, rfl⟩
      · exact (hseparate he).1
      · exact absurd (hi.trans hj.symm) hne

end Represents

/-- The shared location answers as the private ones. -/
theorem step_simulates (supports : Supports)
    (parseRegionAddress : Option (List Char) → Option UInt64) :
    Machine.Simulates (PredefinedLocations.step (G := G) supports parseRegionAddress)
      (privateStep supports parseRegionAddress) Represents := by
  intro s locations input h
  cases input with
  | initChanges e =>
      simp only [PredefinedLocations.step, privateStep]
      rcases initChanges_views supports parseRegionAddress e s.childLocation with
        ⟨child, hshared, hprivate, hext, hsame⟩ |
        ⟨c, l, child, hshared, hprivate, hext, hcomponents, hviews, hunused⟩
      · simp only [hshared, hprivate]
        exact ⟨trivial, h.failed hext hsame⟩
      · simp only [hshared, hprivate]
        exact ⟨trivial, h.added hext hcomponents hviews hunused⟩
  | call i x =>
      simp only [PredefinedLocations.step, privateStep]
      rcases h.lookup i with ⟨hid, hl⟩ | ⟨c, l, hid, hc, hl⟩
      · simp only [hid, hl]
        exact ⟨trivial, h⟩
      · have happly : s.childLocation.applyChangeableId (some i) =
            .ok { s.childLocation with fields := c } := by
          rw [SharedLocation.applyChangeableId, hc]
        simp only [hid, hl, happly]
        exact h.call hc hl x

/-- For every interleaving of initialisations and calls, the wrappers over one base
location answer, and use and configure the data generators, as with a base location of
their own each; and their objects make up these locations at the end. -/
theorem predefined_private (supports : Supports)
    (parseRegionAddress : Option (List Char) → Option UInt64) (inputs : List (PredefinedInput G)) :
    (Machine.run (PredefinedLocations.step supports parseRegionAddress)
        PredefinedLocations.new inputs).1 =
        (Machine.run (privateStep supports parseRegionAddress) [] inputs).1 ∧
      Represents (Machine.run (PredefinedLocations.step supports parseRegionAddress)
        PredefinedLocations.new inputs).2
        (Machine.run (privateStep supports parseRegionAddress) [] inputs).2 := by
  have hnew : Represents (PredefinedLocations.new (G := G)) [] := by
    refine ⟨rfl, rfl, ?_, ?_⟩
    · intro i c l hc _
      cases hc
    · intro i j c d _ hc _
      cases hc
  exact (step_simulates supports parseRegionAddress).run hnew inputs

end InMemoryFuzzing.Fuzz

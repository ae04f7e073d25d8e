import InMemoryFuzzing.Fuzz.Hosted
import InMemoryFuzzing.Fuzz.Theorems.Logging

/-!
# How often a trigger and a stop condition let a location run

The description promises that a location with trigger `start|n` is invoked every `n`
rounds. The counter of the trigger is advanced by the round and once more by `Run`, so
the period is `n - 1` from the second time on (`trigger_period_iff`).

It promises that a location with stop condition `count|n` is executed `n` times. The
condition is met when more than `n` runs have been counted, so there is one run more
(`count_never_kept`).
-/

namespace InMemoryFuzzing.Fuzz

open Base Platform DotNet DataLog

variable {W S L G : Type}

/-! ## A start trigger in the rounds -/

namespace Trigger

/-- A round of a location with this trigger alone: whether it runs, and the trigger
behind it. -/
def round (t : Trigger) : Bool × Trigger :=
  let (triggered, t) := t.nextFuzzRun.isTriggered .start none
  (triggered, if triggered then t.nextFuzzRun else t)

/-- The trigger after a number of rounds. -/
def after (t : Trigger) (n : Nat) : Trigger := (fun t => t.round.2)^[n] t

/-- Whether the location runs in this round, the first of them being 1. -/
def ranIn (t : Trigger) (r : Nat) : Bool := (t.after (r - 1)).round.1

theorem after_succ (t : Trigger) (n : Nat) : t.after (n + 1) = (t.after n).round.2 :=
  Function.iterate_succ_apply' _ n t

theorem nextFuzzRun_counts {t : Trigger} {c : Int} (hcast : castInt32 (t.currentCount + 1) = c)
    (hle : c ≤ t.triggerCount) : t.nextFuzzRun = { t with currentCount := c } := by
  unfold nextFuzzRun
  dsimp only
  rw [hcast, if_neg (by omega)]

theorem nextFuzzRun_wraps {t : Trigger} {c : Int} (hcast : castInt32 (t.currentCount + 1) = c)
    (hlt : t.triggerCount < c) : t.nextFuzzRun = { t with currentCount := 1 } := by
  unfold nextFuzzRun
  dsimp only
  rw [hcast, if_pos (by omega)]

/-- `start|n` with its counter at `c`. -/
def counting (n c : Int) : Trigger := ⟨.start, false, n, none, c⟩

/-- The counter is below `n`. -/
theorem round_counting {n c : Int} (hn : 0 < n) (hint : n < 2 ^ 31) (hmin : -2 ^ 31 ≤ c)
    (hc : c + 1 < n) : (counting n c).round = (false, counting n (c + 1)) := by
  have hcast : castInt32 (c + 1) = c + 1 := castInt32_of_int (by omega) (by omega)
  have hnext : (counting n c).nextFuzzRun = counting n (c + 1) :=
    nextFuzzRun_counts (t := counting n c) hcast (Int.le_of_lt hc)
  have hquiet : (counting n (c + 1)).isTriggered .start none = (false, counting n (c + 1)) := by
    unfold isTriggered counting
    have hne : ¬(c + 1 = n ∨ n = 0) := by omega
    simp [hne]
  rw [round, hnext, hquiet]
  rfl

theorem isTriggered_counting (n : Int) :
    (counting n n).isTriggered .start none = (true, counting n n) := by
  unfold isTriggered counting
  simp

/-- It reaches `n`. -/
theorem round_counting_due {n : Int} (hn : 0 < n) (hint : n < 2 ^ 31) :
    (counting n (n - 1)).round =
      (true, counting n (if n = 2 ^ 31 - 1 then -2 ^ 31 else 1)) := by
  have hcast : castInt32 (n - 1 + 1) = n := by
    rw [Int.sub_add_cancel]
    exact castInt32_of_int (by omega) hint
  have hnext : (counting n (n - 1)).nextFuzzRun = counting n n :=
    nextFuzzRun_counts (t := counting n (n - 1)) hcast (Int.le_refl n)
  have hrun : (counting n n).nextFuzzRun =
      counting n (if n = 2 ^ 31 - 1 then -2 ^ 31 else 1) := by
    by_cases hmax : n = 2 ^ 31 - 1
    · subst hmax
      rfl
    · have hover : castInt32 (n + 1) = n + 1 := castInt32_of_int (by omega) (by omega)
      rw [if_neg hmax]
      exact nextFuzzRun_wraps (t := counting n n) hover (Int.lt_succ n)
  rw [round, hnext, isTriggered_counting, ← hrun]
  rfl

/-- With `n = 1` it is due in every round. -/
theorem round_counting_one : (counting 1 1).round = (true, counting 1 1) := rfl

/-- The first round of `start|!n`. -/
theorem round_first {n : Int} (hn : 0 < n) :
    (⟨.start, true, n, none, 0⟩ : Trigger).round = (true, counting n 1) := by
  have hfirst : (⟨.start, true, n, none, 0⟩ : Trigger).nextFuzzRun =
      ⟨.start, true, n, none, 1⟩ :=
    nextFuzzRun_counts (t := ⟨.start, true, n, none, 0⟩) rfl hn
  have hagain : (⟨.start, false, n, none, 0⟩ : Trigger).nextFuzzRun = counting n 1 :=
    nextFuzzRun_counts (t := ⟨.start, false, n, none, 0⟩) rfl hn
  rw [round, hfirst, ← hagain]
  rfl

/-- The trigger behind its first round, if `n` is not 1. -/
theorem after_one (triggerFirst : Bool) {n : Int} (hn : 1 < n) (hint : n < 2 ^ 31) :
    (⟨.start, triggerFirst, n, none, 0⟩ : Trigger).after 1 = counting n 1 ∧
      (⟨.start, triggerFirst, n, none, 0⟩ : Trigger).ranIn 1 = triggerFirst := by
  cases triggerFirst with
  | false =>
      have hround := round_counting (c := 0) (by omega) hint (by omega) (by omega)
      exact ⟨congrArg Prod.snd hround, congrArg Prod.fst hround⟩
  | true =>
      have hround := round_first (n := n) (by omega)
      exact ⟨congrArg Prod.snd hround, congrArg Prod.fst hround⟩

/-- A counter that is below `n` for `k` more rounds. -/
theorem after_counting {t : Trigger} {m : Nat} {n c : Int} (ht : t.after m = counting n c)
    (hn : 0 < n) (hint : n < 2 ^ 31) (hmin : -2 ^ 31 ≤ c) {k : Nat} (hk : c + k < n) :
    t.after (m + k) = counting n (c + k) ∧ ∀ r, m < r → r ≤ m + k → t.ranIn r = false := by
  induction k with
  | zero =>
      refine ⟨?_, ?_⟩
      · rw [Nat.add_zero, ht, Int.natCast_zero, Int.add_zero]
      · intro r hlow hhigh
        omega
  | succ k ih =>
      obtain ⟨hafter, hran⟩ := ih (by push_cast at hk; omega)
      have hround := round_counting hn hint (c := c + k) (by omega) (by push_cast at hk; omega)
      refine ⟨?_, ?_⟩
      · rw [← Nat.add_assoc, after_succ, hafter, hround, Int.natCast_succ, Int.add_assoc]
      · intro r hlow hhigh
        by_cases hr : r ≤ m + k
        · exact hran r hlow hr
        · have hlast : r - 1 = m + k := by omega
          rw [ranIn, hlast, hafter, hround]

/-- The largest `int`, where the counter of a trigger overflows. -/
def maxInt : Nat := 2 ^ 31 - 1

/-- The rounds of `start|n` and `start|!n` up to the second time the counter is due. -/
theorem ranIn_period (triggerFirst : Bool) {n : Nat} (hn : 1 < n) (hint : n < 2 ^ 31) {t : Trigger}
    (ht : t = ⟨.start, triggerFirst, n, none, 0⟩) :
    t.ranIn 1 = triggerFirst ∧ (∀ r, 1 < r → r < n → t.ranIn r = false) ∧ t.ranIn n = true ∧
      (n ≠ maxInt → (∀ r, n < r → r < 2 * n - 1 → t.ranIn r = false) ∧
        t.ranIn (2 * n - 1) = true) ∧
      (n = maxInt → ∀ r, n < r → r ≤ 2 * n → t.ranIn r = false) := by
  subst ht
  generalize ht : (⟨.start, triggerFirst, n, none, 0⟩ : Trigger) = t
  have hone := after_one triggerFirst (n := n) (by omega) (by omega)
  rw [ht] at hone
  obtain ⟨hafter, hran⟩ := hone
  obtain ⟨hbefore, hquiet⟩ := after_counting hafter (by omega) (by omega) (by omega)
    (k := n - 2) (by omega)
  have hindex : 1 + (n - 2) = n - 1 := by omega
  have hcount : (1 : Int) + (n - 2 : Nat) = n - 1 := by omega
  rw [hindex, hcount] at hbefore
  have hdue := round_counting_due (n := n) (by omega) (by omega)
  have hranAt : t.ranIn n = true := by
    rw [ranIn, hbefore, hdue]
  have hnext : t.after n = counting n (if (n : Int) = 2 ^ 31 - 1 then -2 ^ 31 else 1) := by
    have hsucc : n = n - 1 + 1 := by omega
    rw [hsucc, after_succ, ← hsucc, hbefore, hdue]
  refine ⟨hran, ?_, hranAt, ?_, ?_⟩
  · intro r hlow hhigh
    exact hquiet r hlow (by omega)
  · intro hmax
    have hmax' : (n : Int) ≠ 2 ^ 31 - 1 := by
      intro heq
      apply hmax
      unfold maxInt
      omega
    rw [if_neg hmax'] at hnext
    obtain ⟨hbefore', hquiet'⟩ := after_counting hnext (by omega) (by omega) (by omega)
      (k := n - 2) (by omega)
    rw [hcount] at hbefore'
    refine ⟨?_, ?_⟩
    · intro r hlow hhigh
      exact hquiet' r hlow (by omega)
    · have hlast : 2 * n - 1 - 1 = n + (n - 2) := by omega
      rw [ranIn, hlast, hbefore', hdue]
  · intro hmax r hlow hhigh
    have hmax' : (n : Int) = 2 ^ 31 - 1 := by
      rw [hmax]
      rfl
    rw [if_pos hmax'] at hnext
    obtain ⟨-, hquiet'⟩ := after_counting hnext (by omega) (by omega) (by omega)
      (k := n) (by omega)
    exact hquiet' r hlow (by omega)

/-- `start|1` and `start|!1` are due in every round. -/
theorem ranIn_one (triggerFirst : Bool) (r : Nat) :
    (⟨.start, triggerFirst, 1, none, 0⟩ : Trigger).ranIn (r + 1) = true := by
  have hround : (⟨.start, triggerFirst, 1, none, 0⟩ : Trigger).round = (true, counting 1 1) := by
    cases triggerFirst <;> rfl
  have hafter : ∀ k, (⟨.start, triggerFirst, 1, none, 0⟩ : Trigger).after (k + 1) =
      counting 1 1 := by
    intro k
    induction k with
    | zero => exact congrArg Prod.snd hround
    | succ k ih => rw [after_succ, ih, round_counting_one]
  rw [ranIn, Nat.add_sub_cancel]
  cases r with
  | zero => exact congrArg Prod.fst hround
  | succ r => rw [hafter, round_counting_one]

end Trigger

/-! ## A location with one trigger -/

namespace LocationState

/-- A location with one trigger and no stop condition. -/
def withTrigger (g : Option G) (isPreCondition : Bool) (t : Trigger) (restores : Nat)
    (runs : List Nat) : LocationState G :=
  ⟨⟨none, g, some [t], isPreCondition⟩, restores, runs⟩

variable {g : Option G} {isPreCondition : Bool}

/-- A start trigger does not care about the end of a round. -/
theorem isTriggered_end {t : Trigger} (ht : t.trigger = .start) :
    t.isTriggered .end_ none = (false, t) := by
  unfold Trigger.isTriggered
  simp [ht]

theorem isTriggered_trigger (t : Trigger) (triggerType : TriggerEnum) :
    (t.isTriggered triggerType none).2.trigger = t.trigger := by
  unfold Trigger.isTriggered
  split
  · rfl
  · split
    · rfl
    · split <;> rfl

theorem round_trigger (t : Trigger) : t.round.2.trigger = t.trigger := by
  have hnext : t.nextFuzzRun.trigger = t.trigger := rfl
  unfold Trigger.round
  dsimp only
  split
  · show (t.nextFuzzRun.isTriggered .start none).2.trigger = _
    rw [isTriggered_trigger, hnext]
  · rw [isTriggered_trigger, hnext]

/-- A pass over the location is a question to its trigger. -/
theorem invoke_withTrigger {t t' : Trigger} {triggerType : TriggerEnum} {triggered : Bool}
    (ht : t.isTriggered triggerType none = (triggered, t')) (k : Nat) (runs : List Nat) :
    invoke triggerType (true, withTrigger g isPreCondition t k runs) =
      (true, if triggered then withTrigger g isPreCondition t'.nextFuzzRun k (runs ++ [k])
        else withTrigger g isPreCondition t' k runs) := by
  have hany : BaseFuzzLocation.anyTriggered triggerType none [t] = (triggered, [t']) := by
    rw [BaseFuzzLocation.anyTriggered, ht]
    cases triggered <;> rfl
  have hlocation : (withTrigger g isPreCondition t k runs).isTriggered triggerType =
      (triggered, withTrigger g isPreCondition t' k runs) := by
    unfold isTriggered withTrigger BaseFuzzLocation.isTriggered
    simp only [hany]
  have hopen : ¬(withTrigger g isPreCondition t k runs).location.isFinished = true :=
    Bool.false_ne_true
  rw [invoke, if_neg hopen, pass, hlocation]
  cases triggered <;> rfl

/-- A round of the location is a round of its trigger. -/
theorem round_withTrigger {t : Trigger} (ht : t.trigger = .start) (k : Nat) (runs : List Nat) :
    round (true, withTrigger g isPreCondition t k runs) =
      (true, withTrigger g isPreCondition t.round.2 (k + 1)
        (runs ++ if t.round.1 then [k + 1] else [])) := by
  unfold round
  rw [invoke_withTrigger (isTriggered_end ht), if_neg Bool.false_ne_true]
  show invoke .start (true, withTrigger g isPreCondition t.nextFuzzRun (k + 1) runs) = _
  have hasked : t.nextFuzzRun.isTriggered .start none =
      (t.round.1, (t.nextFuzzRun.isTriggered .start none).2) := rfl
  rw [invoke_withTrigger hasked]
  have hafter : t.round.2 = if t.round.1
      then (t.nextFuzzRun.isTriggered .start none).2.nextFuzzRun
      else (t.nextFuzzRun.isTriggered .start none).2 := rfl
  rw [hafter]
  cases t.round.1 with
  | false => rw [if_neg Bool.false_ne_true, if_neg Bool.false_ne_true, if_neg Bool.false_ne_true,
      List.append_nil]
  | true => rfl

/-- The rounds in which the location has run. -/
theorem iterate_withTrigger {t : Trigger} (ht : t.trigger = .start) (n : Nat) :
    round^[n] (true, withTrigger g isPreCondition t 0 []) =
      (true, withTrigger g isPreCondition (t.after n) n
        ((List.range' 1 n).filter t.ranIn)) := by
  have hstart : ∀ n, (t.after n).trigger = .start := by
    intro n
    induction n with
    | zero => exact ht
    | succ n ih => rw [Trigger.after_succ, round_trigger, ih]
  induction n with
  | zero => rfl
  | succ n ih =>
      rw [Function.iterate_succ_apply', ih, round_withTrigger (hstart n), ← Trigger.after_succ,
        List.range'_1_concat, List.filter_append]
      have hran : t.ranIn (1 + n) = (t.after n).round.1 := by
        rw [Trigger.ranIn, Nat.add_sub_cancel_left]
      have hlast : (if (t.after n).round.1 then [n + 1] else []) = [1 + n].filter t.ranIn := by
        rw [List.filter_singleton, hran, Nat.add_comm, cond_eq_ite]
      rw [hlast]

end LocationState

/-! ## The period -/

/-- The rounds of `start|n` and of `start|!n` as the description gives them, in a session
of this many. -/
def documentedRounds (triggerFirst : Bool) (n rounds : Nat) : List Nat :=
  (List.range' 1 rounds).filter fun r => n ∣ r || (triggerFirst && r = 1)

/-- Two ways to choose rounds are the same if they agree on each. -/
theorem filter_rounds_eq_iff {p q : Nat → Bool} {rounds : Nat} :
    (List.range' 1 rounds).filter p = (List.range' 1 rounds).filter q ↔
      ∀ r, 1 ≤ r → r ≤ rounds → p r = q r := by
  constructor
  · intro heq r hlow hhigh
    have hmem : r ∈ List.range' 1 rounds := List.mem_range'_1.mpr ⟨hlow, by omega⟩
    have hiff : p r = true ↔ q r = true := by
      have hp : r ∈ (List.range' 1 rounds).filter p ↔ p r = true := by
        rw [List.mem_filter, and_iff_right hmem]
      have hq : r ∈ (List.range' 1 rounds).filter q ↔ q r = true := by
        rw [List.mem_filter, and_iff_right hmem]
      rw [← hp, ← hq, heq]
    exact Bool.eq_iff_iff.mpr hiff
  · intro hall
    apply List.filter_congr
    intro r hmem
    obtain ⟨hlow, hhigh⟩ := List.mem_range'_1.mp hmem
    exact hall r hlow (by omega)

/-- A round below `2 * n` is a multiple of `n` only if it is `n`. -/
theorem dvd_iff_of_lt {n r : Nat} (hlow : 1 ≤ r) (hhigh : r < 2 * n) : n ∣ r ↔ r = n := by
  constructor
  · rintro ⟨k, rfl⟩
    have hpos : 0 < k := by
      rw [Nat.pos_iff_ne_zero]
      rintro rfl
      rw [Nat.mul_zero] at hlow
      omega
    have htwo : k < 2 := Nat.lt_of_mul_lt_mul_left (a := n) (by rwa [Nat.mul_comm n 2])
    have hone : k = 1 := by omega
    rw [hone, Nat.mul_one]
  · rintro rfl
    exact Nat.dvd_refl r

/-- Up to the second time the documented rounds are right. -/
theorem ranIn_eq_documented (triggerFirst : Bool) {n : Nat} (hn : 2 ≤ n) (hint : n < 2 ^ 31)
    {t : Trigger} (ht : t = ⟨.start, triggerFirst, n, none, 0⟩) (r : Nat) (hlow : 1 ≤ r)
    (hhigh : r < 2 * n) (hlate : n < r → t.ranIn r = false) :
    t.ranIn r = (decide (n ∣ r) || (triggerFirst && decide (r = 1))) := by
  obtain ⟨hfirst, hbefore, hdue, -, -⟩ := Trigger.ranIn_period triggerFirst hn hint ht
  have hdvd : decide (n ∣ r) = decide (r = n) :=
    decide_eq_decide.mpr (dvd_iff_of_lt hlow hhigh)
  rw [hdvd]
  rcases Nat.lt_trichotomy r n with hlt | heq | hgt
  · by_cases hr : r = 1
    · subst hr
      rw [hfirst]
      simp [Nat.ne_of_lt hlt]
    · rw [hbefore r (by omega) hlt]
      simp [hr, Nat.ne_of_lt hlt]
  · subst heq
    rw [hdue]
    simp
  · rw [hlate hgt]
    have hne : ¬r = 1 := by omega
    simp [Nat.ne_of_gt hgt, hne]

/-- The trigger runs in the documented rounds. -/
theorem ranIn_documented_iff (triggerFirst : Bool) {n : Nat} (hn : 1 ≤ n) (hint : n < 2 ^ 31)
    {t : Trigger} (ht : t = ⟨.start, triggerFirst, n, none, 0⟩) (rounds : Nat) :
    (List.range' 1 rounds).filter t.ranIn = documentedRounds triggerFirst n rounds ↔
      n = 1 ∨ rounds < 2 * n - 1 ∨ n = Trigger.maxInt ∧ rounds < 2 * n := by
  unfold documentedRounds
  rw [filter_rounds_eq_iff]
  by_cases hone : n = 1
  · subst hone
    refine iff_of_true ?_ (Or.inl rfl)
    intro r hlow _
    obtain ⟨k, rfl⟩ : ∃ k, r = k + 1 := ⟨r - 1, by omega⟩
    rw [ht]
    simp [Trigger.ranIn_one]
  · obtain ⟨-, -, -, hsecond, hmax⟩ :=
      Trigger.ranIn_period triggerFirst (by omega) hint ht
    have hagree := ranIn_eq_documented triggerFirst (by omega) hint ht
    constructor
    · intro hall
      by_contra hnot
      rw [not_or, not_or, not_and] at hnot
      obtain ⟨-, hlong, hlonger⟩ := hnot
      by_cases hn' : n = Trigger.maxInt
      -- the second advance has wrapped the counter: the round 2 n is missed
      · have hwrong := hall (2 * n) (by omega) (by have := hlonger hn'; omega)
        have hmult : n ∣ 2 * n := Nat.dvd_mul_left n 2
        rw [hmax hn' (2 * n) (by omega) (Nat.le_refl _), decide_eq_true hmult] at hwrong
        cases hwrong
      -- the second time comes one round early
      · have hwrong := hall (2 * n - 1) (by omega) (by omega)
        have hne : 2 * n - 1 ≠ 1 := by omega
        have hnot : ¬n ∣ 2 * n - 1 := by
          rw [dvd_iff_of_lt (by omega) (by omega)]
          omega
        rw [(hsecond hn').2, decide_eq_false hnot, decide_eq_false hne, Bool.and_false] at hwrong
        cases hwrong
    · rintro (h | hshort | ⟨hn', hshort⟩) r hlow hhigh
      · exact absurd h hone
      · refine hagree r hlow (by omega) ?_
        intro hlate
        by_cases hn' : n = Trigger.maxInt
        · exact hmax hn' r hlate (by omega)
        · exact (hsecond hn').1 r hlate (by omega)
      · refine hagree r hlow (by omega) ?_
        intro hlate
        exact hmax hn' r hlate (by omega)

section

variable [DecidableEq L]

/-- In every session the location runs in the documented rounds if and only if its
counter is 1 or the session ends before the counter is due a second time. -/
theorem trigger_period_iff (env : Environment W S L) (l₀ : L) {bps : Breakpoints}
    {stops examined : List DebuggerStop} {logDestination : String} {locations : List L}
    {lastDebuggerStop : Option DebuggerStop} {fs : FileSystem} {world : W}
    {st : FuzzState (Hosted W G) S L}
    {parseRegionAddress : Option (List Char) → Option UInt64} {dataGenerator : G}
    {triggerFirst : Bool} {n : Nat} {location : BaseFuzzLocation G} (hn : 1 ≤ n)
    (hlocation : BaseFuzzLocation.initChanges .all parseRegionAddress
      ⟨false, none, some dataGenerator, [periodTrigger triggerFirst n]⟩ = some location)
    (hlisted : locations.count l₀ = 1)
    (hfuzz : fuzz (env.withLocation l₀) bps stops (initialState logDestination locations
      lastDebuggerStop fs ⟨world, ⟨location, 0, []⟩⟩) = .ok (st, examined)) :
    st.world.state.runs = documentedRounds triggerFirst n (runEnds bps examined).length ↔
      n = 1 ∨ (runEnds bps examined).length < 2 * n - 1 ∨
        n = Trigger.maxInt ∧ (runEnds bps examined).length < 2 * n := by
  unfold BaseFuzzLocation.initChanges Element.newTriggers Supports.all at hlocation
  rw [if_pos rfl, readTriggers_period] at hlocation
  by_cases hint : n < 2 ^ 31
  · rw [if_pos hint] at hlocation
    cases hlocation
    have hdescribes := session_describes (s := (true, LocationState.withTrigger
      (some dataGenerator) false ⟨.start, triggerFirst, n, none, 0⟩ 0 [])) ⟨rfl, hlisted⟩ rfl hfuzz
    rw [hdescribes.state, LocationState.iterate_withTrigger rfl]
    exact ranIn_documented_iff triggerFirst hn hint rfl _
  · rw [if_neg hint] at hlocation
    cases hlocation

end

/-- A location with trigger `start|2`. -/
def everySecond : BaseFuzzLocation Unit :=
  ⟨none, some (), some [⟨.start, false, 2, none, 0⟩], false⟩

/-- Three rounds: it runs in the second and again in the third. -/
theorem start_two_runs_in_third :
    ∃ st, BaseFuzzLocation.initChanges .all (fun _ => none)
        ⟨false, none, some (), [periodTrigger false 2]⟩ = some everySecond ∧
      fuzz (quietEnvironment.withLocation ()) ⟨0x1000, 0x2000⟩
        [restoreStop, restoreStop, restoreStop]
        (initialState "log" [()] (some snapshotStop) (fun _ => none) ⟨(), ⟨everySecond, 0, []⟩⟩) =
          .ok (st, [snapshotStop, restoreStop, restoreStop, restoreStop]) ∧
      st.world.state.runs = [2, 3] ∧ documentedRounds false 2 3 = [2] :=
  ⟨_, rfl, rfl, rfl, rfl⟩

/-- Two rounds are as documented. -/
theorem trigger_period_iff_two :
    ∃ st, fuzz (quietEnvironment.withLocation ()) ⟨0x1000, 0x2000⟩ [restoreStop, restoreStop]
        (initialState "log" [()] (some snapshotStop) (fun _ => none) ⟨(), ⟨everySecond, 0, []⟩⟩) =
          .ok (st, [snapshotStop, restoreStop, restoreStop]) ∧
      st.world.state.runs = documentedRounds false 2 2 := by
  obtain ⟨st, hfuzz⟩ : ∃ st, fuzz (quietEnvironment.withLocation ()) ⟨0x1000, 0x2000⟩
      [restoreStop, restoreStop]
      (initialState "log" [()] (some snapshotStop) (fun _ => none) ⟨(), ⟨everySecond, 0, []⟩⟩) =
        .ok (st, [snapshotStop, restoreStop, restoreStop]) := ⟨_, rfl⟩
  have hlocation : BaseFuzzLocation.initChanges .all (fun _ => none)
      ⟨false, none, some (), [periodTrigger false 2]⟩ = some everySecond := rfl
  have hiff := trigger_period_iff quietEnvironment () (by omega) hlocation rfl hfuzz
  exact ⟨st, hfuzz, hiff.mpr (Or.inr (Or.inl (Nat.lt_succ_self 2)))⟩

/-! ## The stop condition -/

namespace LocationState

/-- A location with trigger `start`, whose counter stands at `c` and which has been run
`current` times. -/
def withCount (g : Option G) (isPreCondition : Bool) (maxRuns current c : Int) (restores : Nat)
    (runs : List Nat) : LocationState G :=
  ⟨⟨some ⟨maxRuns, current⟩, g, some [⟨.start, false, 0, none, c⟩], isPreCondition⟩, restores, runs⟩

variable {g : Option G} {isPreCondition : Bool}

/-- A round in which the location is not finished. -/
theorem round_withCount {maxRuns current : Int} (hle : current ≤ maxRuns) {c : Int}
    (hc : 0 ≤ c) (hint : c < 2) (k : Nat) (runs : List Nat) :
    round (true, withCount g isPreCondition maxRuns current c k runs) =
      (true, withCount g isPreCondition maxRuns (castInt32 (current + 1)) 1 (k + 1)
        (runs ++ [k + 1])) := by
  have hopen : ∀ c k runs,
      (withCount g isPreCondition maxRuns current c k runs).location.isFinished = false := by
    intro c k runs
    show decide (current > maxRuns) = false
    exact decide_eq_false (by omega)
  have hend : invoke .end_ (true, withCount g isPreCondition maxRuns current c k runs) =
      (true, withCount g isPreCondition maxRuns current c k runs) := by
    rw [invoke, hopen, if_neg Bool.false_ne_true]
    rfl
  have hcast : castInt32 (c + 1) = c + 1 := castInt32_of_int (by omega) (by omega)
  have hpos : 0 < c + 1 := by omega
  have hnext : (⟨.start, false, 0, none, c⟩ : Trigger).nextFuzzRun =
      ⟨.start, false, 0, none, 1⟩ :=
    Trigger.nextFuzzRun_wraps (t := ⟨.start, false, 0, none, c⟩) hcast hpos
  have hstart : { withCount g isPreCondition maxRuns current c k runs with
      restores := k + 1
      location := (withCount g isPreCondition maxRuns current c k runs).location.nextFuzzRun } =
      withCount g isPreCondition maxRuns current 1 (k + 1) runs := by
    unfold withCount BaseFuzzLocation.nextFuzzRun
    simp only [Option.map_some, List.map_cons, List.map_nil, hnext]
  unfold round
  rw [hend]
  show invoke .start (true, _) = _
  dsimp only
  rw [if_pos rfl]
  show invoke .start (true, { withCount g isPreCondition maxRuns current c k runs with
      restores := k + 1
      location := (withCount g isPreCondition maxRuns current c k runs).location.nextFuzzRun }) = _
  rw [hstart, invoke, hopen, if_neg Bool.false_ne_true]
  rfl

/-- The rounds up to `count + 1`. -/
theorem iterate_withCount {n : Nat} (hint : n < 2 ^ 31) {k : Nat} (hk : k ≤ n) :
    round^[k + 1] (true, withCount g isPreCondition n 0 0 0 []) =
      (true, withCount g isPreCondition n (castInt32 (k + 1)) 1 (k + 1)
        (List.range' 1 (k + 1))) := by
  induction k with
  | zero => exact round_withCount (Int.natCast_nonneg n) (Int.le_refl 0) (by omega) 0 []
  | succ k ih =>
      have hcast : castInt32 (k + 1 : Int) = k + 1 := castInt32_of_int (by omega) (by omega)
      rw [Function.iterate_succ_apply', ih (by omega), hcast,
        round_withCount (by omega) (by omega) (by omega), List.range'_1_concat (n := k + 1),
        Nat.add_comm 1 (k + 1)]
      rfl

/-- Once finished, it is removed. -/
theorem round_finished {s : LocationState G} (h : s.location.isFinished = true) :
    round (true, s) = (false, { s with restores := s.restores + 1 }) := by
  unfold round
  rw [invoke, h, if_pos rfl]
  rfl

theorem round_removed (s : LocationState G) :
    round (false, s) = (false, { s with restores := s.restores + 1 }) := rfl

/-- The location behind any number of rounds, if its count is not the largest `int`. -/
theorem runs_withCount {n : Nat} (hint : n < Trigger.maxInt) (rounds : Nat) :
    (round^[rounds] (true, withCount g isPreCondition n 0 0 0 [])).1 = decide (rounds ≤ n + 1) ∧
      (round^[rounds] (true, withCount g isPreCondition n 0 0 0 [])).2.runs =
        List.range' 1 (min rounds (n + 1)) := by
  have hlt : n + 1 < 2 ^ 31 := Nat.add_lt_of_lt_sub hint
  cases rounds with
  | zero => exact ⟨rfl, rfl⟩
  | succ k =>
      by_cases hk : k ≤ n
      · rw [iterate_withCount (by omega) hk, Nat.min_eq_left (by omega)]
        exact ⟨(decide_eq_true (by omega)).symm, rfl⟩
      · -- behind round `n + 1` only the number of rounds changes
        have hlater : ∀ j, ∃ restores, round^[n + 1 + (j + 1)]
            (true, withCount g isPreCondition n 0 0 0 []) =
            (false, withCount g isPreCondition n (n + 1) 1 restores (List.range' 1 (n + 1))) := by
          intro j
          induction j with
          | zero =>
              refine ⟨n + 2, ?_⟩
              have hcast : castInt32 (n + 1 : Int) = n + 1 :=
                castInt32_of_int (by omega) (by omega)
              rw [← Nat.add_assoc, Function.iterate_succ_apply',
                iterate_withCount (by omega) (Nat.le_refl n), hcast, round_finished]
              · rfl
              · exact decide_eq_true (Int.lt_succ n)
          | succ j ih =>
              obtain ⟨restores, hj⟩ := ih
              refine ⟨restores + 1, ?_⟩
              rw [← Nat.add_assoc, Function.iterate_succ_apply', hj, round_removed]
              rfl
        obtain ⟨restores, hat⟩ := hlater (k - n - 1)
        have hindex : n + 1 + (k - n - 1 + 1) = k + 1 := by omega
        rw [hindex] at hat
        rw [hat, Nat.min_eq_right (by omega)]
        exact ⟨(decide_eq_false (by omega)).symm, rfl⟩

end LocationState

section

variable [DecidableEq L]

/-- What the description promises of `count|n` by the end of a session: the location has
been run `n` times and is removed; if its technique does not
touch the world, the others are as in the session without it. -/
structure CountKept (env : Environment W S L) (l₀ : L) (n : Nat) (bps : Breakpoints)
    (stops examined : List DebuggerStop) (st₀ st : FuzzState (Hosted W G) S L) : Prop where
  runs : st.world.state.runs.length = n
  removed : l₀ ∉ st.fuzzLocation
  others : (∀ snapshot world, env.run l₀ snapshot world = (snapshot, world)) →
    ∀ st', fuzz env bps stops { st₀ with
        fuzzLocation := st₀.fuzzLocation.erase l₀
        world := st₀.world.world } = .ok (st', examined) →
      st.fuzzLocation = st'.fuzzLocation ∧ st.world.world = st'.world

variable {env : Environment W S L} {l₀ : L} {bps : Breakpoints}
  {stops examined : List DebuggerStop} {logDestination : String} {locations : List L}
  {lastDebuggerStop : Option DebuggerStop} {fs : FileSystem} {world : W}
  {st : FuzzState (Hosted W G) S L} {parseRegionAddress : Option (List Char) → Option UInt64}
  {dataGenerator : G} {n : Nat} {location : BaseFuzzLocation G}

/-- The location that `count|n` and `start` describe. -/
theorem initChanges_count (hlocation : BaseFuzzLocation.initChanges .all parseRegionAddress
      ⟨false, some (countCondition n), some dataGenerator, ["start".toList]⟩ = some location) :
    n < 2 ^ 31 ∧ (⟨location, 0, []⟩ : LocationState G) =
      LocationState.withCount (some dataGenerator) false n 0 0 0 [] := by
  unfold BaseFuzzLocation.initChanges Element.newStopCondition Supports.all at hlocation
  rw [if_pos rfl, readStopCondition_count] at hlocation
  by_cases hint : n < 2 ^ 31
  · rw [if_pos hint] at hlocation
    cases hlocation
    exact ⟨hint, rfl⟩
  · rw [if_neg hint] at hlocation
    cases hlocation

/-- What `count|n` does: the location is run once in each round up to `n + 1`, and is
removed in round `n + 2`. -/
theorem count_session (hint : n < Trigger.maxInt)
    (hlocation : BaseFuzzLocation.initChanges .all parseRegionAddress
      ⟨false, some (countCondition n), some dataGenerator, ["start".toList]⟩ = some location)
    (hlisted : locations.count l₀ = 1)
    (hfuzz : fuzz (env.withLocation l₀) bps stops (initialState logDestination locations
      lastDebuggerStop fs ⟨world, ⟨location, 0, []⟩⟩) = .ok (st, examined)) :
    st.world.state.runs = List.range' 1 (min (runEnds bps examined).length (n + 1)) ∧
      (l₀ ∈ st.fuzzLocation ↔ (runEnds bps examined).length ≤ n + 1) := by
  rw [(initChanges_count hlocation).2] at hfuzz
  have hdescribes := session_describes (s := (true, LocationState.withCount
    (some dataGenerator) false n 0 0 0 [])) ⟨rfl, hlisted⟩ rfl hfuzz
  obtain ⟨hlist, hruns⟩ := LocationState.runs_withCount (g := some dataGenerator) hint
    (runEnds bps examined).length
  refine ⟨hdescribes.state ▸ hruns, ?_⟩
  rw [← List.count_pos_iff, hdescribes.listed, hlist]
  by_cases hle : (runEnds bps examined).length ≤ n + 1
  · rw [decide_eq_true hle]
    exact iff_of_true Nat.one_pos hle
  · rw [decide_eq_false hle]
    exact iff_of_false (Nat.lt_irrefl 0) hle

/-- No session of more than `n` rounds keeps what `count|n` promises. -/
theorem count_never_kept
    (hlocation : BaseFuzzLocation.initChanges .all parseRegionAddress
      ⟨false, some (countCondition n), some dataGenerator, ["start".toList]⟩ = some location)
    (hlisted : locations.count l₀ = 1)
    (hfuzz : fuzz (env.withLocation l₀) bps stops (initialState logDestination locations
      lastDebuggerStop fs ⟨world, ⟨location, 0, []⟩⟩) = .ok (st, examined))
    (hlong : n < (runEnds bps examined).length) :
    ¬ CountKept env l₀ n bps stops examined (initialState logDestination locations
      lastDebuggerStop fs ⟨world, ⟨location, 0, []⟩⟩) st := by
  intro hkept
  obtain ⟨hint, hstate⟩ := initChanges_count hlocation
  rw [hstate] at hfuzz
  have hdescribes := session_describes (s := (true, LocationState.withCount
    (some dataGenerator) false n 0 0 0 [])) ⟨rfl, hlisted⟩ rfl hfuzz
  -- the runs of the first `n + 1` rounds are still there
  have hfirst := LocationState.runs_iterate hlong
    (true, LocationState.withCount (some dataGenerator) false n 0 0 0 [])
  rw [LocationState.iterate_withCount hint (Nat.le_refl n), ← hdescribes.state] at hfirst
  have hlength : n + 1 ≤ st.world.state.runs.length := by
    simpa [LocationState.withCount] using hfirst.length_le
  rw [hkept.runs] at hlength
  omega

end

/-- A location with trigger `start` and stop condition `count|1`. -/
def once : BaseFuzzLocation Unit :=
  ⟨some ⟨1, 0⟩, some (), some [⟨.start, false, 0, none, 0⟩], false⟩

/-- A session of three rounds, in which it is run twice and removed in the third. -/
theorem count_one_runs_twice :
    ∃ st, BaseFuzzLocation.initChanges .all (fun _ => none)
        ⟨false, some (countCondition 1), some (), ["start".toList]⟩ = some once ∧
      fuzz (quietEnvironment.withLocation ()) ⟨0x1000, 0x2000⟩
        [restoreStop, restoreStop, restoreStop]
        (initialState "log" [()] (some snapshotStop) (fun _ => none) ⟨(), ⟨once, 0, []⟩⟩) =
          .ok (st, [snapshotStop, restoreStop, restoreStop, restoreStop]) ∧
      st.world.state.runs = [1, 2] ∧ st.fuzzLocation = [] :=
  ⟨_, rfl, rfl, rfl, rfl⟩

theorem count_never_kept_one :
    ∃ st, fuzz (quietEnvironment.withLocation ()) ⟨0x1000, 0x2000⟩
        [restoreStop, restoreStop, restoreStop]
        (initialState "log" [()] (some snapshotStop) (fun _ => none) ⟨(), ⟨once, 0, []⟩⟩) =
          .ok (st, [snapshotStop, restoreStop, restoreStop, restoreStop]) ∧
      ¬ CountKept quietEnvironment () 1 ⟨0x1000, 0x2000⟩ [restoreStop, restoreStop, restoreStop]
        [snapshotStop, restoreStop, restoreStop, restoreStop]
        (initialState "log" [()] (some snapshotStop) (fun _ => none) ⟨(), ⟨once, 0, []⟩⟩) st := by
  obtain ⟨st, hfuzz⟩ : ∃ st, fuzz (quietEnvironment.withLocation ()) ⟨0x1000, 0x2000⟩
      [restoreStop, restoreStop, restoreStop]
      (initialState "log" [()] (some snapshotStop) (fun _ => none) ⟨(), ⟨once, 0, []⟩⟩) =
        .ok (st, [snapshotStop, restoreStop, restoreStop, restoreStop]) := ⟨_, rfl⟩
  have hlocation : BaseFuzzLocation.initChanges .all (fun _ => none)
      ⟨false, some (countCondition 1), some (), ["start".toList]⟩ = some once := rfl
  exact ⟨st, hfuzz, count_never_kept hlocation rfl hfuzz (by decide)⟩

end InMemoryFuzzing.Fuzz

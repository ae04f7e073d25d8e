import InMemoryFuzzing.Gdb.DebugSession
import Mathlib.Data.List.Nodup

/-!
# The breakpoints of both sides

`InStep` — the breakpoints of the connector are those that gdb will have when it has
come to the end of the queue. It is kept when gdb sets a breakpoint, when the
connector deletes one, and when gdb does.
-/

namespace InMemoryFuzzing.Gdb

open Base Platform DotNet
variable {M : Type}

def GDBBreakpoint.entry (br : GDBBreakpoint) : Int × UInt64 := (br.breakpointNum, br.address)

/-- gdb's breakpoints without those that are to be deleted. -/
def remaining (breakpoints : List (Nat × UInt64)) (deletes : List Int) : List (Int × UInt64) :=
  (breakpoints.filter fun b => (b.1 : Int) ∉ deletes).map fun b => ((b.1 : Int), b.2)

structure InStep (table : Breakpoints) (t : Target M) (deletes : List Int) : Prop where
  table : table.map GDBBreakpoint.entry = remaining t.breakpoints deletes
  numbers : (t.breakpoints.map Prod.fst).Nodup
  bound : ∀ b ∈ t.breakpoints, b.1 ≤ t.lastNumber
  int : t.lastNumber < 2 ^ 31
  named : ∀ n ∈ deletes, n ≤ t.lastNumber

namespace InStep

variable {table : Breakpoints} {t : Target M} {deletes : List Int}

theorem start (hnone : t.breakpoints = []) (hint : t.lastNumber < 2 ^ 31) : InStep [] t [] := by
  refine ⟨?_, ?_, ?_, hint, by simp⟩ <;> rw [hnone]
  · rfl
  · exact List.nodup_nil
  · simp

/-- The program moves on. -/
theorem move (h : InStep table t deletes) {t' : Target M}
    (hbreakpoints : t'.breakpoints = t.breakpoints) (hlast : t'.lastNumber = t.lastNumber) :
    InStep table t' deletes := by
  refine ⟨?_, ?_, ?_, ?_, ?_⟩
  · rw [h.table, hbreakpoints]
  · rw [hbreakpoints]
    exact h.numbers
  · rw [hbreakpoints, hlast]
    exact h.bound
  · rw [hlast]
    exact h.int
  · rw [hlast]
    exact h.named

theorem mem_iff (h : InStep table t deletes) (num : Int) (address : UInt64) :
    (∃ br ∈ table, br.breakpointNum = num ∧ br.address = address) ↔
      num ∉ deletes ∧ ∃ n : Nat, num = n ∧ (n, address) ∈ t.breakpoints := by
  have hmem : (∃ br ∈ table, br.breakpointNum = num ∧ br.address = address) ↔
      (num, address) ∈ table.map GDBBreakpoint.entry := by
    simp [GDBBreakpoint.entry]
  rw [hmem, h.table, remaining, List.mem_map]
  constructor
  · rintro ⟨⟨n, a⟩, hn, heq⟩
    cases heq
    rw [List.mem_filter] at hn
    exact ⟨of_decide_eq_true hn.2, n, rfl, hn.1⟩
  · rintro ⟨hnot, n, rfl, hn⟩
    exact ⟨(n, address), List.mem_filter.mpr ⟨hn, decide_eq_true hnot⟩, rfl⟩

theorem mem (h : InStep table t deletes) {br : GDBBreakpoint} (hbr : br ∈ table) :
    br.breakpointNum ∉ deletes ∧
      ∃ n : Nat, br.breakpointNum = n ∧ (n, br.address) ∈ t.breakpoints :=
  (h.mem_iff br.breakpointNum br.address).mp ⟨br, hbr, rfl, rfl⟩

theorem num_le (h : InStep table t deletes) {br : GDBBreakpoint} (hbr : br ∈ table) :
    br.breakpointNum ≤ t.lastNumber := by
  obtain ⟨-, n, hn, hmem⟩ := h.mem hbr
  have hle := h.bound _ hmem
  simp only at hle
  omega

/-- No breakpoint has a number behind the last one. -/
theorem fresh (h : InStep table t deletes) {num : Nat} (hnum : t.lastNumber < num) :
    table.lookupBreakpoint num = none := by
  rw [Breakpoints.lookupBreakpoint, List.find?_eq_none]
  intro br hbr
  have hle := h.num_le hbr
  have hne : br.breakpointNum ≠ (num : Int) := by omega
  simpa using hne

/-- A number is the number of one breakpoint. -/
theorem address_unique (h : InStep table t deletes) {n : Nat} {a b : UInt64}
    (ha : (n, a) ∈ t.breakpoints) (hb : (n, b) ∈ t.breakpoints) : a = b :=
  congrArg Prod.snd (List.inj_on_of_nodup_map h.numbers ha hb rfl)

/-- gdb sets a breakpoint. -/
theorem setBreakpoint (h : InStep table t deletes) {num : Nat} (hnum : t.lastNumber < num)
    (hint : num < 2 ^ 31) (address : UInt64) (identifier : String) :
    InStep (table ++ [⟨num, address, identifier⟩]) (t.withBreakpoint num address) deletes := by
  have hfresh : (num : Int) ∉ deletes := by
    intro hmem
    have hle := h.named _ hmem
    omega
  refine ⟨?_, ?_, ?_, hint, ?_⟩
  · have hone : [(num, address)].filter (fun b => (b.1 : Int) ∉ deletes) = [(num, address)] :=
      List.filter_eq_self.mpr (by simpa using hfresh)
    rw [List.map_append, h.table, remaining, remaining, Target.withBreakpoint, List.filter_append,
      hone, List.map_append]
    rfl
  · rw [Target.withBreakpoint, List.map_append]
    refine List.nodup_append.mpr ⟨h.numbers, List.nodup_singleton _, ?_⟩
    intro n hn m hm
    obtain ⟨b, hb, rfl⟩ := List.mem_map.mp hn
    have hle := h.bound b hb
    have hm : m = num := by simpa using hm
    omega
  · intro b hb
    rcases List.mem_append.mp hb with hb | hb
    · exact (h.bound b hb).trans hnum.le
    · rw [List.mem_singleton.mp hb]
      exact Nat.le_refl _
  · intro n hn
    have hle := h.named n hn
    have hlast : (t.withBreakpoint num address).lastNumber = num := rfl
    omega

/-- One that is deleted at once. -/
theorem resolve (h : InStep table t deletes) {num : Nat} (hnum : t.lastNumber < num)
    (hint : num < 2 ^ 31) (address : UInt64) :
    InStep table (t.withBreakpoint num address) (deletes ++ [(num : Int)]) := by
  obtain ⟨-, hnumbers, hbound, -, hdeletes⟩ := h.setBreakpoint hnum hint address ""
  refine ⟨?_, hnumbers, hbound, hint, ?_⟩
  · have hold : ∀ b ∈ t.breakpoints, (b.1 : Int) ≠ (num : Int) := by
      intro b hb
      have hle := h.bound b hb
      omega
    have hfilter : t.breakpoints.filter (fun b => (b.1 : Int) ∉ deletes ++ [(num : Int)]) =
        t.breakpoints.filter fun b => (b.1 : Int) ∉ deletes := by
      refine List.filter_congr fun b hb => ?_
      have hne := hold b hb
      simp only [List.mem_append, List.mem_singleton, hne, or_false]
    rw [h.table, remaining, remaining, Target.withBreakpoint, List.filter_append, hfilter]
    simp
  · intro n hn
    rcases List.mem_append.mp hn with hn | hn
    · exact hdeletes n hn
    · rw [List.mem_singleton.mp hn]
      exact Int.le_refl _

/-- Two breakpoints of the table have different numbers. -/
theorem unique (h : InStep table t deletes) {br other : GDBBreakpoint} (hbr : br ∈ table)
    (hother : other ∈ table) (hnum : br.breakpointNum = other.breakpointNum) : br = other := by
  have hnodup : (table.map GDBBreakpoint.breakpointNum).Nodup := by
    have hmap : table.map GDBBreakpoint.breakpointNum =
        ((t.breakpoints.filter fun b => (b.1 : Int) ∉ deletes).map Prod.fst).map Nat.cast := by
      have hfst := congrArg (List.map Prod.fst) h.table
      rw [List.map_map, remaining, List.map_map] at hfst
      rw [List.map_map]
      exact hfst
    rw [hmap]
    exact (h.numbers.sublist (List.filter_sublist.map Prod.fst)).map Nat.cast_injective
  exact List.inj_on_of_nodup_map hnodup hbr hother hnum

/-- A breakpoint of the table is to be deleted. -/
theorem delete (h : InStep table t deletes) {br : GDBBreakpoint} (hbr : br ∈ table) :
    InStep (table.filter fun other => other.breakpointNum ≠ br.breakpointNum) t
      (deletes ++ [br.breakpointNum]) := by
  refine ⟨?_, h.numbers, h.bound, h.int, ?_⟩
  · have hmap : (table.filter fun other => other.breakpointNum ≠ br.breakpointNum).map
        GDBBreakpoint.entry =
        (table.map GDBBreakpoint.entry).filter fun e => e.1 ≠ br.breakpointNum := by
      rw [List.filter_map]
      rfl
    rw [hmap, h.table, remaining, remaining, List.filter_map, List.filter_filter]
    congr 1
    refine List.filter_congr fun b _ => ?_
    simp [and_comm]
  · intro n hn
    rcases List.mem_append.mp hn with hn | hn
    · exact h.named n hn
    · rw [List.mem_singleton.mp hn]
      exact h.num_le hbr

/-- gdb deletes it. -/
theorem deleted {n : Int} (h : InStep table t (n :: deletes)) :
    InStep table (t.withoutBreakpoint n) deletes := by
  refine ⟨?_, ?_, ?_, h.int, ?_⟩
  · rw [h.table, remaining, remaining, Target.withoutBreakpoint, List.filter_filter]
    congr 1
    refine List.filter_congr fun b _ => ?_
    simp [Bool.and_comm]
  · exact h.numbers.sublist (List.filter_sublist.map Prod.fst)
  · exact fun b hb => h.bound b (List.mem_filter.mp hb).1
  · exact fun m hm => h.named m (List.mem_cons_of_mem _ hm)

/-- Where gdb stops for a breakpoint the connector knows one. -/
theorem isBreakpoint_iff (h : InStep table t []) (moment : Moment M) :
    t.isBreakpoint moment = true ↔ ∃ br ∈ table, br.address = moment.pc := by
  rw [Target.isBreakpoint, List.any_eq_true]
  constructor
  · rintro ⟨⟨n, a⟩, hmem, ha⟩
    obtain ⟨br, hbr, -, haddress⟩ :=
      (h.mem_iff n a).mpr ⟨List.not_mem_nil, n, rfl, hmem⟩
    exact ⟨br, hbr, haddress.trans (of_decide_eq_true ha)⟩
  · rintro ⟨br, hbr, ha⟩
    obtain ⟨-, n, -, hmem⟩ := h.mem hbr
    exact ⟨_, hmem, decide_eq_true ha⟩

/-- The breakpoint of a number that gdb names. -/
theorem lookup (h : InStep table t []) {n : Nat} {a : UInt64} (hmem : (n, a) ∈ t.breakpoints) :
    ∃ br ∈ table, table.lookupBreakpoint n = some br ∧ br.address = a := by
  obtain ⟨br, hbr, hnum, -⟩ := (h.mem_iff n a).mpr ⟨List.not_mem_nil, n, rfl, hmem⟩
  have hsome : (table.lookupBreakpoint n).isSome = true :=
    List.find?_isSome.mpr ⟨br, hbr, decide_eq_true hnum⟩
  obtain ⟨found, hfound⟩ := Option.isSome_iff_exists.mp hsome
  have hfoundmem : found ∈ table := List.mem_of_find?_eq_some hfound
  have hfoundnum : found.breakpointNum = n := by
    have hdecide := List.find?_some hfound
    exact of_decide_eq_true hdecide
  obtain ⟨-, m, hm, hmem'⟩ := h.mem hfoundmem
  have hsame : m = n := by omega
  subst hsame
  exact ⟨found, hfoundmem, hfound, h.address_unique hmem' hmem⟩

end InStep

end InMemoryFuzzing.Gdb

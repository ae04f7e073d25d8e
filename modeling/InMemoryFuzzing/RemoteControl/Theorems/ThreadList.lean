import InMemoryFuzzing.RemoteControl.ThreadList
import Mathlib.Data.List.Induction

/-!
# Integrity of the list of running threads

Each call has one outcome: its loop ends, and nothing undefined is done (`step_linked`). Behind any
calls the list passes the records of the threads that have been started and not been deleted
(`mem_runningThreads`), in the order of their starts (`threadList_integrity`). Only a deletion
without a victim may go wrong (`Holds.delete_null`).
-/

namespace InMemoryFuzzing.RemoteControl

open Base LinkedRecord

namespace ThreadList

variable {Addr Thread : Type} {s : ThreadList Addr Thread} {p : Option Addr}
  {entries front back : List (Addr × Thread)} {e : Addr × Thread}

theorem load_eq {heap : Addr → Option (RunningThreadInfo Addr Thread)} {a : Addr}
    {record : RunningThreadInfo Addr Thread} (h : heap a = some record) :
    load heap a = .ok record := by
  rw [load, h]

/-! ## `start_thread` -/

/-- The loop ends at the last record. -/
theorem lastRound_ends (h : LinkedPath s.heap p entries none) :
    EndsWith s.lastRound p (.ok (entries.getLast?.map Prod.fst)) := by
  induction entries generalizing p with
  | nil =>
      rw [h.eq_of_nil]
      exact endsWith_result rfl
  | cons e entries ih =>
      obtain ⟨rfl, record, hrecord, -, hrest⟩ := h.record_of_cons
      have hround : s.lastRound (some e.1) =
          if record.next ≠ none then .ok (.inl record.next) else .ok (.inr (some e.1)) := by
        rw [lastRound, load_eq hrecord]
        rfl
      cases entries with
      | nil =>
          have hnull : record.next = none := hrest.eq_of_nil
          rw [hnull, if_neg (by simp)] at hround
          exact endsWith_result hround
      | cons e' entries =>
          have hnext : record.next = some e'.1 := hrest.record_of_cons.1
          rw [if_pos (by simp [hnext])] at hround
          exact EndsWith.of_round hround (ih hrest)

variable [DecidableEq Addr]

theorem setNext_eq {heap : Addr → Option (RunningThreadInfo Addr Thread)} {a : Addr}
    {record : RunningThreadInfo Addr Thread} (h : heap a = some record) (next : Option Addr) :
    setNext heap a next =
      .ok (Function.update heap a (some { record with next := next })) := by
  rw [setNext, load_eq h]
  rfl

theorem simpleFree_eq {heap : Addr → Option (RunningThreadInfo Addr Thread)} {a : Addr}
    {record : RunningThreadInfo Addr Thread} (h : heap a = some record) :
    simpleFree heap a = .ok (Function.update heap a none) := by
  rw [simpleFree, load_eq h]
  rfl

/-- An assignment to `next` in the last record of a path, which then ends elsewhere. -/
theorem setNext_last {heap : Addr → Option (RunningThreadInfo Addr Thread)} {q : Option Addr}
    (h : LinkedPath heap p (front ++ [e]) q) (he : e.1 ∉ front.map Prod.fst)
    (target : Option Addr) :
    ∃ heap', setNext heap e.1 target = .ok heap' ∧ LinkedPath heap' p (front ++ [e]) target ∧
      ∀ a, a ≠ e.1 → heap' a = heap a := by
  obtain ⟨mid, -, hend⟩ := LinkedPath.append_iff.mp h
  obtain ⟨-, record, hrecord, hvalue, -⟩ := hend.record_of_cons
  have hkeeps : value { record with next := target } = e.2 := hvalue
  refine ⟨_, setNext_eq hrecord target, h.redirect he hkeeps, ?_⟩
  intro a ha
  exact Function.update_of_ne ha ..

/-- The new record comes behind the last one. -/
theorem append_eq (h : LinkedPath s.heap s.firstElement entries none) {newThreadInfo : Addr}
    (hfresh : s.heap newThreadInfo = none) (thread : Thread) :
    ∃ t : ThreadList Addr Thread,
      s.append newThreadInfo thread (entries.getLast?.map Prod.fst) = .ok (newThreadInfo, t) ∧
      LinkedPath t.heap t.firstElement (entries ++ [(newThreadInfo, thread)]) none ∧
      ∀ a, a ∉ (entries ++ [(newThreadInfo, thread)]).map Prod.fst → t.heap a = s.heap a := by
  have hnew := h.not_mem_of_none hfresh
  have hmalloc := h.update_other hnew (some ⟨thread, none⟩)
  have hrecord : Function.update s.heap newThreadInfo (some ⟨thread, none⟩) newThreadInfo =
      some ⟨thread, none⟩ := Function.update_self ..
  rcases List.eq_nil_or_concat' entries with rfl | ⟨front, last, rfl⟩
  · refine ⟨_, rfl, .cons hrecord (.nil none), ?_⟩
    intro a ha
    exact Function.update_of_ne (by simpa using ha) ..
  · have hlast : last.1 ∉ (front ++ []).map Prod.fst := hmalloc.not_mem_others
    rw [List.append_nil] at hlast
    have hne : newThreadInfo ≠ last.1 := by
      rintro rfl
      exact hnew (by simp)
    obtain ⟨heap, hset, hlinked, hothers⟩ := setNext_last hmalloc hlast (some newThreadInfo)
    have hcell := (hothers _ hne).trans hrecord
    refine ⟨⟨s.firstElement, heap⟩, ?_, hlinked.append (.cons hcell (.nil none)), ?_⟩
    · rw [List.getLast?_concat, Option.map_some, append, hset]
      rfl
    · intro a ha
      simp only [List.map_append, List.mem_append, List.map_singleton, List.mem_singleton,
        not_or] at ha
      exact (hothers a ha.1.2).trans (Function.update_of_ne ha.2 ..)

/-! ## `delete_running_thread_info` -/

variable {victim : Addr} {pointer prev : Option Addr}

theorem searchRound_last {record : RunningThreadInfo Addr Thread} {a : Addr}
    (hrecord : s.heap a = some record) (hnull : record.next = none) :
    s.searchRound pointer ⟨prev, some a⟩ = .ok (.inr ⟨prev, some a⟩) := by
  rw [searchRound]
  simp only [load_eq hrecord]
  exact if_pos hnull

theorem searchRound_next {record : RunningThreadInfo Addr Thread} {a b : Addr}
    (hrecord : s.heap a = some record) (hnext : record.next = some b) :
    s.searchRound pointer ⟨prev, some a⟩ = .ok (whileNot pointer ⟨some a, some b⟩) := by
  rw [searchRound]
  simp only [load_eq hrecord]
  rw [← hnext]
  exact if_neg (by simp [hnext])

theorem whileNot_victim : whileNot (some victim) ⟨prev, some victim⟩ =
    .inr ⟨prev, some victim⟩ :=
  if_neg (by simp)

theorem whileNot_other {a : Addr} (h : some a ≠ pointer) :
    whileNot pointer ⟨prev, some a⟩ = .inl ⟨prev, some a⟩ :=
  if_pos ⟨Option.some_ne_none a, h⟩

/-- From another record the loop comes to the victim, with the record in front of it. -/
theorem search_present_from {thread : Thread}
    (h : LinkedPath s.heap (some e.1) (e :: front ++ (victim, thread) :: back) none)
    (hvictim : victim ∉ front.map Prod.fst) :
    EndsWith (s.searchRound (some victim)) ⟨prev, some e.1⟩
      (.ok ⟨(e :: front).getLast?.map Prod.fst, some victim⟩) := by
  induction front generalizing e prev with
  | nil =>
      obtain ⟨record, hrecord, hnext, -⟩ := h.next_of_cons
      have hround : s.searchRound (some victim) ⟨prev, some e.1⟩ = _ :=
        searchRound_next hrecord hnext
      rw [whileNot_victim] at hround
      exact endsWith_result hround
  | cons e' front ih =>
      obtain ⟨record, hrecord, hnext, hrest⟩ := h.next_of_cons
      obtain ⟨hne, hfront⟩ := not_or.mp (List.mem_cons.not.mp hvictim)
      have hround : s.searchRound (some victim) ⟨prev, some e.1⟩ = _ :=
        searchRound_next hrecord hnext
      rw [whileNot_other (by simpa using Ne.symm hne)] at hround
      rw [List.getLast?_cons_cons]
      exact EndsWith.of_round hround (ih hrest hfront)

/-- Without the victim it is left at the last record. -/
theorem search_absent_from (h : LinkedPath s.heap (some e.1) (e :: entries) none)
    (habsent : ∀ e' ∈ e :: entries, some e'.1 ≠ pointer) :
    ∃ c : Cursor Addr, EndsWith (s.searchRound pointer) ⟨prev, some e.1⟩ (.ok c) ∧
      c.currentElement ≠ pointer := by
  induction entries generalizing e prev with
  | nil =>
      obtain ⟨-, record, hrecord, -, hrest⟩ := h.record_of_cons
      exact ⟨_, endsWith_result (searchRound_last hrecord hrest.eq_of_nil),
        habsent e List.mem_cons_self⟩
  | cons e' entries ih =>
      obtain ⟨record, hrecord, hnext, hrest⟩ := h.next_of_cons
      obtain ⟨-, hothers⟩ := List.forall_mem_cons.mp habsent
      have hround : s.searchRound pointer ⟨prev, some e.1⟩ = _ := searchRound_next hrecord hnext
      rw [whileNot_other (hothers e' List.mem_cons_self)] at hround
      obtain ⟨c, hends, hc⟩ := ih hrest hothers
      exact ⟨c, EndsWith.of_round hround hends, hc⟩

/-- The first round moves to the first record. -/
theorem searchRound_first :
    s.searchRound pointer ⟨none, none⟩ = .ok (whileNot pointer ⟨none, s.firstElement⟩) := rfl

theorem search_present {thread : Thread}
    (h : LinkedPath s.heap s.firstElement (front ++ (victim, thread) :: back) none)
    (hvictim : victim ∉ front.map Prod.fst) :
    EndsWith (s.searchRound (some victim)) ⟨none, none⟩
      (.ok ⟨front.getLast?.map Prod.fst, some victim⟩) := by
  have hround : s.searchRound (some victim) ⟨none, none⟩ = _ := searchRound_first
  cases front with
  | nil =>
      rw [h.record_of_cons.1, whileNot_victim] at hround
      exact endsWith_result hround
  | cons e front =>
      obtain ⟨hne, hfront⟩ := not_or.mp (List.mem_cons.not.mp hvictim)
      have hfirst : s.firstElement = some e.1 := h.record_of_cons.1
      rw [hfirst, whileNot_other (by simpa using Ne.symm hne)] at hround
      rw [hfirst] at h
      exact EndsWith.of_round hround (search_present_from h hfront)

theorem search_absent (h : LinkedPath s.heap s.firstElement entries none)
    (hfirst : s.firstElement ≠ pointer) (habsent : ∀ e ∈ entries, some e.1 ≠ pointer) :
    ∃ c : Cursor Addr, EndsWith (s.searchRound pointer) ⟨none, none⟩ (.ok c) ∧
      c.currentElement ≠ pointer := by
  have hround : s.searchRound pointer ⟨none, none⟩ = _ := searchRound_first
  cases entries with
  | nil =>
      rw [h.eq_of_nil] at hround hfirst
      exact ⟨⟨none, none⟩, endsWith_result hround, hfirst⟩
  | cons e entries =>
      have hfirst : s.firstElement = some e.1 := h.record_of_cons.1
      rw [hfirst, whileNot_other (habsent e List.mem_cons_self)] at hround
      rw [hfirst] at h
      obtain ⟨c, hends, hc⟩ := search_absent_from h habsent
      exact ⟨c, EndsWith.of_round hround hends, hc⟩

theorem detach_first {record : RunningThreadInfo Addr Thread}
    (hrecord : s.heap victim = some record) :
    s.detach (some victim) ⟨none, some victim⟩ =
      .ok ⟨record.next, Function.update s.heap victim none⟩ := by
  simp only [detach, load_eq hrecord, simpleFree_eq hrecord]
  rfl

theorem detach_behind {record : RunningThreadInfo Addr Thread} {a : Addr}
    {heap : Addr → Option (RunningThreadInfo Addr Thread)} (hrecord : s.heap victim = some record)
    (hset : setNext s.heap a record.next = .ok heap) (hkept : heap victim = some record) :
    s.detach (some victim) ⟨some a, some victim⟩ =
      .ok ⟨s.firstElement, Function.update heap victim none⟩ := by
  simp only [detach, load_eq hrecord, if_true]
  show (setNext s.heap a record.next >>= _) = _
  rw [hset]
  show (simpleFree heap victim >>= _) = _
  rw [simpleFree_eq hkept]
  rfl

/-- The record of the victim is taken out between its neighbours, and freed. -/
theorem detach_eq {thread : Thread}
    (h : LinkedPath s.heap s.firstElement (front ++ (victim, thread) :: back) none) :
    ∃ t : ThreadList Addr Thread,
      s.detach (some victim) ⟨front.getLast?.map Prod.fst, some victim⟩ = .ok t ∧
      LinkedPath t.heap t.firstElement (front ++ back) none ∧ t.heap victim = none ∧
      ∀ a, a ≠ victim → a ∉ (front ++ back).map Prod.fst → t.heap a = s.heap a := by
  have hvictim := h.not_mem_others
  obtain ⟨mid, hfront, hrest⟩ := LinkedPath.append_iff.mp h
  obtain ⟨rfl, record, hrecord, -, hback⟩ := hrest.record_of_cons
  rcases List.eq_nil_or_concat' front with rfl | ⟨front, last, rfl⟩
  · refine ⟨_, detach_first hrecord, hback.update_other hvictim none, Function.update_self .., ?_⟩
    intro a ha _
    exact Function.update_of_ne ha ..
  · have hmiddle := h
    rw [List.append_assoc, List.singleton_append] at hmiddle
    have hdistinct := hmiddle.not_mem_others
    rw [List.map_append, List.map_cons, List.mem_append, List.mem_cons, not_or, not_or]
      at hdistinct
    obtain ⟨hlast, hne, hbehind⟩ := hdistinct
    obtain ⟨heap, hset, hlinked, hothers⟩ := setNext_last hfront hlast record.next
    have hdetach := detach_behind hrecord hset ((hothers _ (Ne.symm hne)).trans hrecord)
    have hkept : LinkedPath heap record.next back none := by
      refine hback.frame ?_
      intro e he
      apply hothers
      intro heq
      exact hbehind (heq ▸ List.mem_map_of_mem he)
    have hall := hlinked.append hkept
    refine ⟨⟨s.firstElement, _⟩, ?_, hall.update_other hvictim none, Function.update_self .., ?_⟩
    · rw [List.getLast?_concat, Option.map_some]
      exact hdetach
    · intro a ha hother
      have hdiffers : a ≠ last.1 := by
        rintro rfl
        exact hother (by simp)
      exact (Function.update_of_ne ha ..).trans (hothers a hdiffers)

theorem detach_other {c : Cursor Addr} (h : c.currentElement ≠ pointer) :
    s.detach pointer c = .ok s :=
  if_neg h

/-! ## One call -/

variable {heap : Addr → Option (RunningThreadInfo Addr Thread)}

/-- The list passes the records of the entries, in blocks that were free at the beginning. All other
blocks are as they were. -/
structure Holds (heap : Addr → Option (RunningThreadInfo Addr Thread)) (s : ThreadList Addr Thread)
    (entries : List (Addr × Thread)) : Prop where
  linked : LinkedPath s.heap s.firstElement entries none
  fresh : ∀ e ∈ entries, heap e.1 = none
  others : ∀ a, a ∉ entries.map Prod.fst → s.heap a = heap a

omit [DecidableEq Addr] in
theorem Holds.empty : (empty heap).Holds heap [] :=
  ⟨.nil none, by simp, fun _ _ => rfl⟩

theorem Holds.start (h : s.Holds heap entries) {newThreadInfo : Addr}
    (hfresh : s.heap newThreadInfo = none) (thread : Thread) :
    ∃ t, t.Holds heap (entries ++ [(newThreadInfo, thread)]) ∧
      ∀ outcome, s.StartsThread newThreadInfo thread outcome ↔
        outcome = .ok (newThreadInfo, t) := by
  obtain ⟨t, hcall, hlinked, hothers⟩ := append_eq h.linked hfresh thread
  refine ⟨t, ⟨hlinked, ?_, ?_⟩, ?_⟩
  · have hnew : newThreadInfo ∉ entries.map Prod.fst := h.linked.not_mem_of_none hfresh
    intro e he
    rcases List.mem_append.mp he with hmem | hmem
    · exact h.fresh e hmem
    · rw [List.mem_singleton.mp hmem, ← h.others _ hnew]
      exact hfresh
  · intro a ha
    rw [hothers a ha]
    rw [List.map_append, List.mem_append, not_or] at ha
    exact h.others a ha.1
  · intro outcome
    rw [StartsThread, (lastRound_ends h.linked).bind_iff, hcall]

theorem Holds.delete_other (h : s.Holds heap entries) (hfirst : s.firstElement ≠ pointer)
    (habsent : ∀ e ∈ entries, some e.1 ≠ pointer)
    (outcome : Except HeapFault (ThreadList Addr Thread)) :
    s.DeletesRunningThreadInfo pointer outcome ↔ outcome = .ok s := by
  obtain ⟨c, hends, hc⟩ := search_absent h.linked hfirst habsent
  rw [DeletesRunningThreadInfo, hends.bind_iff, detach_other hc]

/-- Nothing is changed for a victim that is not in the list. -/
theorem Holds.delete_absent (h : s.Holds heap entries) (hvictim : victim ∉ entries.map Prod.fst)
    (outcome : Except HeapFault (ThreadList Addr Thread)) :
    s.DeletesRunningThreadInfo (some victim) outcome ↔ outcome = .ok s := by
  have habsent : ∀ e ∈ entries, some e.1 ≠ some victim := by
    intro e he heq
    exact hvictim (Option.some.inj heq ▸ List.mem_map_of_mem he)
  refine h.delete_other ?_ habsent outcome
  cases entries with
  | nil => simp [h.linked.eq_of_nil]
  | cons e entries =>
      rw [h.linked.record_of_cons.1]
      exact habsent e List.mem_cons_self

theorem Holds.delete_present {thread : Thread}
    (h : s.Holds heap (front ++ (victim, thread) :: back)) :
    ∃ t, t.Holds heap (front ++ back) ∧
      ∀ outcome, s.DeletesRunningThreadInfo (some victim) outcome ↔ outcome = .ok t := by
  have hvictim := h.linked.not_mem_others
  rw [List.map_append, List.mem_append, not_or] at hvictim
  have hends := search_present h.linked hvictim.1
  obtain ⟨t, hcall, hlinked, hfreed, hothers⟩ := detach_eq h.linked
  refine ⟨t, ⟨hlinked, ?_, ?_⟩, ?_⟩
  · intro e he
    refine h.fresh e ?_
    rcases List.mem_append.mp he with hmem | hmem
    · exact List.mem_append_left _ hmem
    · exact List.mem_append_right _ (List.mem_cons_of_mem _ hmem)
  · intro a ha
    by_cases heq : a = victim
    · subst heq
      rw [hfreed, h.fresh (a, thread) (by simp)]
    · rw [hothers a heq ha]
      refine h.others a ?_
      intro hmem
      simp only [List.map_append, List.map_cons, List.mem_append, List.mem_cons] at hmem ha
      tauto
  · intro outcome
    rw [DeletesRunningThreadInfo, hends.bind_iff, hcall]

/-! ## The threads that run -/

theorem runningThreads_concat (ops : List (Operation Addr Thread)) (op : Operation Addr Thread) :
    runningThreads (ops ++ [op]) = op.apply (runningThreads ops) :=
  List.foldl_concat ..

/-- They stand in the order of their starts. -/
theorem runningThreads_sublist (ops : List (Operation Addr Thread)) :
    (runningThreads ops).Sublist (startedThreads ops) := by
  induction ops using List.reverseRecOn with
  | nil => exact .slnil
  | append_singleton ops op ih =>
      rw [runningThreads_concat, startedThreads, List.filterMap_append]
      cases op with
      | start newThreadInfo thread => exact ih.append_right _
      | delete victim => exact (List.filter_sublist.trans ih).trans (List.sublist_append_left ..)

/-- The last element of a list is the one at the cut, or stands behind it. -/
theorem cut_concat_iff {α : Type} {xs : List α} {x a b : α} :
    (∃ before behind, xs ++ [x] = before ++ a :: behind ∧ b ∉ behind) ↔
      x = a ∨ x ≠ b ∧ ∃ before behind, xs = before ++ a :: behind ∧ b ∉ behind := by
  constructor
  · rintro ⟨before, behind, heq, hbehind⟩
    rcases List.eq_nil_or_concat' behind with rfl | ⟨behind, last, rfl⟩
    · exact .inl (List.append_singleton_inj.mp heq).2
    · rw [← List.cons_append, ← List.append_assoc, List.append_singleton_inj] at heq
      obtain ⟨rfl, rfl⟩ := heq
      rw [List.mem_append, List.mem_singleton, not_or] at hbehind
      exact .inr ⟨Ne.symm hbehind.2, before, behind, rfl, hbehind.1⟩
  · rintro (rfl | ⟨hx, before, behind, rfl, hbehind⟩)
    · exact ⟨xs, [], rfl, List.not_mem_nil⟩
    · refine ⟨before, behind ++ [x], by simp, ?_⟩
      rw [List.mem_append, List.mem_singleton, not_or]
      exact ⟨hbehind, Ne.symm hx⟩

/-- A thread runs if it has been started, and its record not been deleted since then. -/
theorem mem_runningThreads (ops : List (Operation Addr Thread)) : e ∈ runningThreads ops ↔
    ∃ before behind, ops = before ++ .start e.1 e.2 :: behind ∧ .delete e.1 ∉ behind := by
  induction ops using List.reverseRecOn with
  | nil => simp [runningThreads]
  | append_singleton ops op ih =>
      rw [runningThreads_concat, cut_concat_iff, ← ih]
      cases op with
      | start newThreadInfo thread =>
          simp [Operation.apply, Prod.ext_iff, or_comm, eq_comm]
      | delete victim =>
          simp only [Operation.apply, List.mem_filter, decide_eq_true_eq, reduceCtorEq, false_or,
            ne_eq, Operation.delete.injEq]
          rw [and_comm, @eq_comm _ victim]

theorem apply_delete_absent (h : victim ∉ entries.map Prod.fst) :
    Operation.apply entries (.delete victim) = entries := by
  refine List.filter_eq_self.mpr ?_
  intro e he
  have hne : e.1 ≠ victim := by
    rintro rfl
    exact h (List.mem_map_of_mem he)
  simpa using hne

theorem apply_delete_present {thread : Thread} (h : victim ∉ (front ++ back).map Prod.fst) :
    Operation.apply (front ++ (victim, thread) :: back) (.delete victim) = front ++ back := by
  have hothers := apply_delete_absent h
  simp only [Operation.apply, List.filter_append, ne_eq, not_true_eq_false, decide_false,
    Bool.false_eq_true, not_false_eq_true, List.filter_cons_of_neg] at hothers ⊢
  exact hothers

/-! ## Any calls -/

/-- A call that is allowed has one outcome, a list again. -/
theorem step_linked (h : s.Holds heap entries) {op : Operation Addr Thread}
    (hallowed : s.Allowed op) :
    ∃ t, t.Holds heap (op.apply entries) ∧ ∀ outcome, s.Yields op outcome ↔ outcome = .ok t := by
  cases op with
  | start newThreadInfo thread =>
      obtain ⟨t, ht, hcall⟩ := h.start hallowed thread
      refine ⟨t, ht, ?_⟩
      intro outcome
      simp only [Yields, hcall, exists_eq_left]
      rfl
  | delete victim =>
      by_cases hvictim : victim ∈ entries.map Prod.fst
      · obtain ⟨⟨_, thread⟩, he, rfl⟩ := List.mem_map.mp hvictim
        obtain ⟨front, back, rfl⟩ := List.append_of_mem he
        obtain ⟨t, ht, hcall⟩ := h.delete_present
        rw [apply_delete_present h.linked.not_mem_others]
        exact ⟨t, ht, hcall⟩
      · rw [apply_delete_absent hvictim]
        exact ⟨s, h, h.delete_absent hvictim⟩

/-- Behind any calls. -/
theorem Runs.linked {ops : List (Operation Addr Thread)} (h : Runs (empty heap) ops s) :
    s.Holds heap (runningThreads ops) := by
  induction h with
  | nil => exact .empty
  | snoc _ hallowed hyields ih =>
      obtain ⟨t, ht, hcall⟩ := step_linked ih hallowed
      cases (hcall _).mp hyields
      rw [runningThreads_concat]
      exact ht

/-- The list passes the records of the threads that have been started and not been deleted, in the
order of their starts, and none twice; no other block has changed. The next call returns, and
changes nothing if its victim is not in the list. -/
theorem threadList_integrity {ops : List (Operation Addr Thread)} (h : Runs (empty heap) ops s) :
    LinkedPath s.heap s.firstElement (runningThreads ops) none ∧
    ((runningThreads ops).map Prod.fst).Nodup ∧
    (∀ a, a ∉ (runningThreads ops).map Prod.fst → s.heap a = heap a) ∧
    (∀ op, s.Allowed op → ∃ t, ∀ outcome, s.Yields op outcome ↔ outcome = .ok t) ∧
    ∀ victim, victim ∉ (runningThreads ops).map Prod.fst →
      ∀ outcome, s.Yields (.delete victim) outcome ↔ outcome = .ok s := by
  have hlist := h.linked
  refine ⟨hlist.linked, hlist.linked.nodup, hlist.others, ?_, ?_⟩
  · intro op hallowed
    obtain ⟨t, -, hcall⟩ := step_linked hlist hallowed
    exact ⟨t, hcall⟩
  · intro victim hvictim
    exact hlist.delete_absent hvictim

/-- The first record is deleted, and its block is used again. -/
theorem threadList_integrity_reused : ∃ s : ThreadList Nat Nat,
    Runs (empty fun _ => none) [.start 1 10, .start 2 20, .delete 1, .start 1 30] s ∧
    LinkedPath s.heap s.firstElement [(2, 20), (1, 30)] none := by
  have hfirst : Runs (empty fun _ => none) ([] ++ [.start 1 10]) _ :=
    Runs.nil.snoc rfl ⟨_, ⟨_, ⟨1, rfl⟩, rfl⟩, rfl⟩
  have hsecond : Runs (empty fun _ => none) ([.start 1 10] ++ [.start 2 20]) _ :=
    hfirst.snoc rfl ⟨_, ⟨_, ⟨1, rfl⟩, rfl⟩, rfl⟩
  have hdelete : Runs (empty fun _ => none) ([.start 1 10, .start 2 20] ++ [.delete 1]) _ :=
    hsecond.snoc trivial ⟨_, ⟨1, rfl⟩, rfl⟩
  have hagain : Runs (empty fun _ => none)
      ([.start 1 10, .start 2 20, .delete 1] ++ [.start 1 30]) _ :=
    hdelete.snoc rfl ⟨_, ⟨_, ⟨1, rfl⟩, rfl⟩, rfl⟩
  exact ⟨_, hagain, (threadList_integrity hagain).1⟩

/-- Without a victim the list must not be empty: the loop then ends with both cursors at NULL, and
NULL is the victim. -/
theorem Holds.delete_null (h : s.Holds heap entries)
    (outcome : Except HeapFault (ThreadList Addr Thread)) :
    s.DeletesRunningThreadInfo none outcome ↔
      outcome = if s.firstElement = none then .error .nullPointer else .ok s := by
  split
  · rename_i hnull
    have hround : s.searchRound none ⟨none, none⟩ = _ := searchRound_first
    rw [hnull] at hround
    exact (endsWith_result hround).bind_iff
  · rename_i hfirst
    exact h.delete_other hfirst (fun e _ => Option.some_ne_none e.1) outcome

end ThreadList

end InMemoryFuzzing.RemoteControl

import InMemoryFuzzing.CoreDump.RecordLogic
import Mathlib.Data.List.DropRight

/-!
# What the reader of record logs guarantees

* `recordLog_roundTrip` — a log written group by group is read back as one
  `InstructionDescription` per group.
* `grammar_iff` — the logs on which `Read` follows the grammar: all but the bare
  magic number, logs with stray bytes, and logs with a value of 2^31 bytes.
-/

namespace InMemoryFuzzing.CoreDump

open Base Platform DotNet Utils

/-! ## Round trip -/

/-- An entry of a log for a register table. -/
def Change.Valid (registers : Registers) : Change → Prop
  | .register regnum value =>
      ∃ reg ∈ registers, reg.num = regnum ∧ value.length = reg.size.toNat
  | .memory _ value => value.length < 2 ^ 31

/-- The changes of one instruction, closed by an end entry. -/
structure Group where
  changes : List Change
  signal : Int32
  count : Int32

def Group.encode (g : Group) : List UInt8 :=
  g.changes.flatMap Change.encode ++ (Record.ending g.signal g.count).encode

/-- The gdb encoding of groups and of changes without end entry behind them. -/
def encodeLog (groups : List Group) (unfinished : List Change) : List UInt8 :=
  magicBytes ++ (groups.flatMap Group.encode ++ unfinished.flatMap Change.encode)

def Change.register? : Change → Option RegisterChange
  | .register regnum value => some ⟨regnum, value⟩
  | .memory _ _ => none

def Change.memory? : Change → Option MemoryChange
  | .register _ _ => none
  | .memory address value => some ⟨address, value⟩

/-- The register changes and the memory changes, each in order. -/
def describe (changes : List Change) : InstructionDescription where
  registerChanges := changes.filterMap Change.register?
  memoryChanges := changes.filterMap Change.memory?

def Group.description (g : Group) : InstructionDescription :=
  { describe g.changes with signal := g.signal, instructionCount := g.count }

/-- With distinct numbers, a register of the table is the one that is found. -/
theorem findRegisterByNum_of_mem {registers : Registers}
    (hnodup : (registers.map Register.num).Nodup) {reg : Register} (hreg : reg ∈ registers) :
    findRegisterByNum registers reg.num = some reg := by
  induction registers with
  | nil => cases hreg
  | cons first rest ih =>
      rw [List.map_cons, List.nodup_cons] at hnodup
      rcases List.mem_cons.mp hreg with rfl | hreg
      · simp [findRegisterByNum]
      · have hne : first.num ≠ reg.num := by
          intro heq
          exact hnodup.1 (heq ▸ List.mem_map_of_mem hreg)
        rw [findRegisterByNum, List.find?_cons_of_neg (by simpa using hne)]
        exact ih hnodup.2 hreg

theorem Change.Valid.readable {registers : Registers}
    (hnodup : (registers.map Register.num).Nodup)
    (hsizes : ∀ reg ∈ registers, reg.size.toNat < 2 ^ 31) {c : Change} (h : c.Valid registers) :
    (Item.record (.change c)).Wf registers ∧ (Item.record (.change c)).Fits := by
  cases c with
  | register regnum value =>
      obtain ⟨reg, hreg, rfl, hvalue⟩ := h
      refine ⟨⟨reg, findRegisterByNum_of_mem hnodup hreg, hvalue⟩, ?_⟩
      show value.length < 2 ^ 31
      rw [hvalue]
      exact hsizes reg hreg
  | memory address value =>
      have hvalue : value.length < 2 ^ 31 := h
      exact ⟨Nat.lt_trans hvalue (by simp), hvalue⟩

/-- The items of a list of changes. -/
def changeItems (changes : List Change) : List Item := changes.map fun c => .record (.change c)

def Group.items (g : Group) : List Item :=
  changeItems g.changes ++ [.record (.ending g.signal g.count)]

theorem encodeItems_append (items items' : List Item) :
    encodeItems (items ++ items') = encodeItems items ++ encodeItems items' :=
  List.flatMap_append

theorem encodeItems_changeItems (changes : List Change) :
    encodeItems (changeItems changes) = changes.flatMap Change.encode := by
  rw [encodeItems, changeItems, List.flatMap_map]
  rfl

/-- A log, as items. -/
theorem encodeLog_eq (groups : List Group) (unfinished : List Change) :
    encodeLog groups unfinished =
      magicBytes ++ encodeItems (groups.flatMap Group.items ++ changeItems unfinished) := by
  have hgroup : ∀ g : Group, g.encode = encodeItems g.items := by
    intro g
    rw [Group.items, encodeItems_append, encodeItems_changeItems]
    simp [Group.encode, encodeItems, Item.encode]
  have hgroups : groups.flatMap Group.encode = encodeItems (groups.flatMap Group.items) := by
    rw [encodeItems, List.flatMap_assoc]
    exact List.flatMap_congr fun g _ => hgroup g
  rw [encodeLog, hgroups, encodeItems_append, encodeItems_changeItems]

/-- Changes collect in the pending instruction. -/
theorem foldl_changes (changes : List Change) (p : Option InstructionDescription)
    (finished : List InstructionDescription) :
    ((changeItems changes).foldl Item.apply (p, finished)).2 = finished ∧
    ((changeItems changes).foldl Item.apply (p, finished)).1.getD {} =
      { p.getD {} with
        registerChanges := (p.getD {}).registerChanges ++ changes.filterMap Change.register?,
        memoryChanges := (p.getD {}).memoryChanges ++ changes.filterMap Change.memory? } ∧
    (changes ≠ [] → ((changeItems changes).foldl Item.apply (p, finished)).1.isSome) := by
  induction changes generalizing p with
  | nil => exact ⟨rfl, by simp [changeItems], fun h => absurd rfl h⟩
  | cons c rest ih =>
      obtain ⟨hdone, hpending, _⟩ := ih (some ((p.getD {}).add c))
      refine ⟨hdone, hpending.trans ?_, fun _ => ?_⟩
      · cases c with
        | register regnum value =>
            simp [InstructionDescription.add, InstructionDescription.addRegChange,
              List.filterMap_cons, Change.register?, Change.memory?]
        | memory address value =>
            simp [InstructionDescription.add, InstructionDescription.addMemChange,
              List.filterMap_cons, Change.register?, Change.memory?]
      · -- once there is a pending instruction, changes keep it
        have hkeep : ∀ (changes : List Change) (i : InstructionDescription),
            ((changeItems changes).foldl Item.apply (some i, finished)).1.isSome := by
          intro changes
          induction changes with
          | nil => exact fun i => rfl
          | cons c rest ih => exact fun i => ih _
        exact hkeep rest _

/-- A group closes the pending instruction, which was empty. -/
theorem foldl_groups (groups : List Group) (p : Option InstructionDescription)
    (hp : p.getD {} = {}) (finished : List InstructionDescription) :
    (groups.flatMap Group.items).foldl Item.apply (p, finished) =
      (if groups = [] then p else none, finished ++ groups.map Group.description) := by
  induction groups generalizing p finished with
  | nil => simp
  | cons g rest ih =>
      obtain ⟨hdone, hpending, _⟩ := foldl_changes g.changes p finished
      have hgroup : g.items.foldl Item.apply (p, finished) =
          (none, finished ++ [g.description]) := by
        rw [Group.items, List.foldl_append, List.foldl_cons, List.foldl_nil, Item.apply, hdone,
          hpending, hp]
        simp [Group.description, describe]
      rw [List.flatMap_cons, List.foldl_append, hgroup, ih none rfl, if_neg (List.cons_ne_nil _ _)]
      simp

/-- Groups are read back as they were written, and changes behind the last one as
one more instruction. -/
theorem recordLog_roundTrip (registers : Registers) (groups : List Group)
    (hnodup : (registers.map Register.num).Nodup)
    (hsizes : ∀ reg ∈ registers, reg.size.toNat < 2 ^ 31) (hgroups : groups ≠ [])
    (hvalid : ∀ g ∈ groups, ∀ c ∈ g.changes, c.Valid registers) :
    readSection registers (encodeLog groups []) = .ok (groups.map Group.description) ∧
    ∀ unfinished, unfinished ≠ [] → (∀ c ∈ unfinished, c.Valid registers) →
      readSection registers (encodeLog groups unfinished) =
        .ok (groups.map Group.description ++ [describe unfinished]) := by
  have hchanges : ∀ changes : List Change, (∀ c ∈ changes, c.Valid registers) →
      Readable registers (changeItems changes) := by
    intro changes hall item hitem
    obtain ⟨c, hc, rfl⟩ := List.mem_map.mp hitem
    exact (hall c hc).readable hnodup hsizes
  have hreadable : ∀ unfinished, (∀ c ∈ unfinished, c.Valid registers) →
      Readable registers (groups.flatMap Group.items ++ changeItems unfinished) := by
    intro unfinished hunfinished item hitem
    rcases List.mem_append.mp hitem with hitem | hitem
    · obtain ⟨g, hg, hitem⟩ := List.mem_flatMap.mp hitem
      rcases List.mem_append.mp hitem with hitem | hitem
      · exact hchanges g.changes (hvalid g hg) item hitem
      · rw [List.mem_singleton.mp hitem]
        exact ⟨trivial, trivial⟩
    · exact hchanges unfinished hunfinished item hitem
  have hfold := foldl_groups groups (some {}) rfl []
  rw [if_neg hgroups, List.nil_append] at hfold
  constructor
  · rw [encodeLog_eq, readSection_encode (hreadable [] (by simp)), instructionsOf, assemble]
    simp [changeItems, hfold]
  · intro unfinished hne hunfinished
    obtain ⟨hdone, hpending, hsome⟩ :=
      foldl_changes unfinished none (groups.map Group.description)
    obtain ⟨i, hi⟩ := Option.isSome_iff_exists.mp (hsome hne)
    rw [hi, Option.getD_some, Option.getD_none] at hpending
    rw [encodeLog_eq, readSection_encode (hreadable unfinished hunfinished), instructionsOf, assemble,
      List.foldl_append, hfold]
    simp only [hdone, hi, hpending]
    simp [describe]

/-- One group of two changes, and a memory change behind it. -/
theorem recordLog_roundTrip_one_group :
    readSection [⟨0, "eax", 4⟩]
      (encodeLog [⟨[.register 0 [1, 2, 3, 4], .memory 0x1000 [5]], 5, 7⟩] [.memory 0x2000 []]) =
      .ok [⟨5, 7, [⟨0, [1, 2, 3, 4]⟩], [⟨0x1000, [5]⟩]⟩, ⟨0, 0, [], [⟨0x2000, []⟩]⟩] := by
  have hvalid : ∀ g ∈ [Group.mk [.register 0 [1, 2, 3, 4], .memory 0x1000 [5]] 5 7],
      ∀ c ∈ g.changes, c.Valid [⟨0, "eax", 4⟩] := by
    simp [Change.Valid]
  exact (recordLog_roundTrip [⟨0, "eax", 4⟩] _ (by simp) (by simp) (by simp) hvalid).2
    [.memory 0x2000 []] (by simp) (by simp [Change.Valid])

/-! ## Grammar -/

def Record.isEnding : Record → Bool
  | .change _ => false
  | .ending _ _ => true

/-- The stream is the magic number followed by complete, well-formed records. -/
def WellFormedLog (registers : Registers) (src : Source) (records : List Record) : Prop :=
  src = magicBytes ++ encodeItems (records.map .record) ∧ ∀ r ∈ records, r.Wf registers

/-- The records behind the last end record. -/
def trailing (records : List Record) : List Record := records.rtakeWhile fun r => !r.isEnding

/-- One instruction for each end record, and one for the records behind the last. -/
def instructionCount (records : List Record) : Nat :=
  records.countP Record.isEnding + if trailing records = [] then 0 else 1

/-- `Read` follows the grammar: it accepts the well-formed logs and no other
stream, and returns as many instructions as the records describe. -/
def GrammarHolds (registers : Registers) (src : Source) : Prop :=
  ((∃ result, readSection registers src = .ok result) ↔
    ∃ records, WellFormedLog registers src records) ∧
  ∀ records result, WellFormedLog registers src records →
    readSection registers src = .ok result → result.length = instructionCount records

/-- A log that would be readable but for stray bytes, with at least one of them. -/
def HasStray (registers : Registers) (src : Source) : Prop :=
  ∃ items, Readable registers items ∧ src = magicBytes ++ encodeItems items ∧
    ∃ b, Item.stray b ∈ items

/-- A well-formed log with a value that no array holds. -/
def HasHuge (registers : Registers) (src : Source) : Prop :=
  ∃ records, WellFormedLog registers src records ∧ ∃ r ∈ records, ¬ r.Fits

/-- How the end records and the last record decide what `Read` has collected. -/
theorem foldl_records (records : List Record) :
    ((records.map Item.record).foldl Item.apply (some {}, [])).2.length =
      records.countP Record.isEnding ∧
    ((records.map Item.record).foldl Item.apply (some {}, [])).1.toList.length =
      if records = [] then 1 else if trailing records = [] then 0 else 1 := by
  induction records using List.reverseRecOn with
  | nil => exact ⟨rfl, rfl⟩
  | append_singleton records r ih =>
      rw [List.map_append, List.foldl_append, if_neg (by simp), trailing, List.rtakeWhile_concat,
        List.countP_append]
      cases r with
      | change c => exact ⟨ih.1, by simp [Item.apply, Record.isEnding]⟩
      | ending signal count => exact ⟨by simp [Item.apply, Record.isEnding, ih.1],
          by simp [Item.apply, Record.isEnding]⟩

/-- The initial pending instruction is counted when there is no record at all. -/
theorem instructionsOf_length (records : List Record) :
    (instructionsOf (records.map .record)).length =
      if records = [] then 1 else instructionCount records := by
  obtain ⟨hfinished, hpending⟩ := foldl_records records
  rw [instructionsOf, assemble, List.length_append, hfinished, hpending]
  by_cases hnil : records = []
  · rw [if_pos hnil, if_pos hnil, hnil, List.countP_nil]
  · rw [if_neg hnil, if_neg hnil, instructionCount]

variable {registers : Registers} {src : Source} {records : List Record}

theorem WellFormedLog.wf (h : WellFormedLog registers src records) :
    ∀ i ∈ records.map Item.record, i.Wf registers := by
  intro i hi
  obtain ⟨r, hr, rfl⟩ := List.mem_map.mp hi
  exact h.2 r hr

/-- The items of a well-formed log are its records. -/
theorem WellFormedLog.items_eq (h : WellFormedLog registers src records) {items : List Item}
    (hitems : Readable registers items) (hsrc : src = magicBytes ++ encodeItems items) :
    items = records.map .record := by
  have henc : magicBytes ++ encodeItems items = magicBytes ++ encodeItems (records.map .record) :=
    hsrc.symm.trans h.1
  exact encodeItems_inj (fun i hi => (hitems i hi).1) h.wf (List.append_cancel_left henc)

/-- Items without stray bytes are records. -/
theorem exists_records (items : List Item) (h : ∀ b, Item.stray b ∉ items) :
    ∃ records : List Record, items = records.map .record := by
  induction items with
  | nil => exact ⟨[], rfl⟩
  | cons item items ih =>
      obtain ⟨records, rfl⟩ := ih fun b hb => h b (List.mem_cons_of_mem _ hb)
      cases item with
      | record r => exact ⟨r :: records, rfl⟩
      | stray b => exact absurd List.mem_cons_self (h b)

/-- A well-formed log whose values fit is read. -/
theorem WellFormedLog.read (h : WellFormedLog registers src records)
    (hfits : ∀ r ∈ records, r.Fits) :
    readSection registers src = .ok (instructionsOf (records.map .record)) := by
  obtain ⟨rfl, hwf⟩ := h
  refine readSection_encode fun i hi => ?_
  obtain ⟨r, hr, rfl⟩ := List.mem_map.mp hi
  exact ⟨hwf r hr, hfits r hr⟩

/-- The bare magic number is a log without records, and `Read` returns an
instruction for it. -/
theorem not_grammarHolds_magic : ¬ GrammarHolds registers magicBytes := by
  rintro ⟨_, hcount⟩
  have hlog : WellFormedLog registers magicBytes [] := ⟨rfl, fun r hr => by cases hr⟩
  have hread := hlog.read fun r hr => by cases hr
  have hlen := hcount [] _ hlog hread
  rw [instructionsOf_length, if_pos rfl] at hlen
  exact absurd hlen (by decide)

/-- A stray byte is skipped. -/
theorem HasStray.not_grammarHolds (h : HasStray registers src) : ¬ GrammarHolds registers src := by
  rintro ⟨haccept, _⟩
  obtain ⟨items, hreadable, hsrc, b, hb⟩ := h
  obtain ⟨records, hlog⟩ := haccept.mp ⟨_, readSection_ok_iff.mpr ⟨items, hreadable, hsrc, rfl⟩⟩
  rw [hlog.items_eq hreadable hsrc] at hb
  obtain ⟨r, _, hr⟩ := List.mem_map.mp hb
  cases hr

/-- A value that no array holds makes `Read` raise. -/
theorem HasHuge.not_grammarHolds (h : HasHuge registers src) : ¬ GrammarHolds registers src := by
  rintro ⟨haccept, _⟩
  obtain ⟨records, hlog, r, hr, hhuge⟩ := h
  obtain ⟨result, hread⟩ := haccept.mpr ⟨records, hlog⟩
  obtain ⟨items, hreadable, hsrc, _⟩ := readSection_ok_iff.mp hread
  rw [hlog.items_eq hreadable hsrc] at hreadable
  exact hhuge (hreadable (.record r) (List.mem_map_of_mem hr)).2

/-- **The logs on which `Read` follows the grammar.** -/
theorem grammar_iff (registers : Registers) (src : Source) :
    GrammarHolds registers src ↔
      src ≠ magicBytes ∧ ¬ HasStray registers src ∧ ¬ HasHuge registers src := by
  constructor
  · intro h
    refine ⟨?_, fun hstray => hstray.not_grammarHolds h, fun hhuge => hhuge.not_grammarHolds h⟩
    rintro rfl
    exact not_grammarHolds_magic h
  · rintro ⟨hmagic, hstray, hhuge⟩
    refine ⟨⟨?_, ?_⟩, ?_⟩
    · rintro ⟨result, hread⟩
      obtain ⟨items, hreadable, hsrc, _⟩ := readSection_ok_iff.mp hread
      obtain ⟨records, rfl⟩ := exists_records items fun b hb =>
        hstray ⟨items, hreadable, hsrc, b, hb⟩
      exact ⟨records, hsrc, fun r hr => (hreadable (.record r) (List.mem_map_of_mem hr)).1⟩
    · rintro ⟨records, hlog⟩
      refine ⟨_, hlog.read fun r hr => ?_⟩
      by_contra hnot
      exact hhuge ⟨records, hlog, r, hr, hnot⟩
    · intro records result hlog hread
      obtain ⟨items, hreadable, hsrc, rfl⟩ := readSection_ok_iff.mp hread
      rw [hlog.items_eq hreadable hsrc, instructionsOf_length, if_neg]
      rintro rfl
      exact hmagic hlog.1

/-- The bare magic number is one instruction too many, and the byte 3 is taken for
a record. -/
theorem grammar_fails :
    ¬ GrammarHolds [] magicBytes ∧ ¬ GrammarHolds [] (magicBytes ++ [3]) := by
  refine ⟨not_grammarHolds_magic, HasStray.not_grammarHolds ⟨[.stray 3], ?_, rfl, 3, by simp⟩⟩
  intro item hitem
  rw [List.mem_singleton.mp hitem]
  exact ⟨Nat.le_refl 3, trivial⟩

end InMemoryFuzzing.CoreDump

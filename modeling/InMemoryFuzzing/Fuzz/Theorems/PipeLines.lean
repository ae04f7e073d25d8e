import InMemoryFuzzing.Fuzz.PipeLines
import InMemoryFuzzing.Fuzz.Sessions
import InMemoryFuzzing.Fuzz.Theorems.Logging
import Mathlib.Data.List.Flatten

/-!
# The lines of the logged pipes

All logged pipes share one sink, and between the end of a run and the start of the next one
there is none. A line of a pipe is in one piece in one of the files if and only if it arrives
in one piece while a file is open, and the sink is closed behind it or has passed the line on by
itself (`pipe_line_kept_iff`).
-/

namespace InMemoryFuzzing.Fuzz

open Base Platform DotNet DataLog

variable {α β : Type}

/-! ## Lines -/

/-- A line of the output of a pipe, with its line break; `value` is the byte of an element. -/
structure IsLine (value : α → UInt8) (output line : List α) : Prop where
  inside : ∃ front back, output = front ++ line ++ back ∧
    ∀ last, front.getLast? = some last → value last = 10
  ends : ∃ body newLine, line = body ++ [newLine] ∧ value newLine = 10 ∧ ∀ b ∈ body, value b ≠ 10
  ascii : ∀ b ∈ line, value b < 128

/-- The line is in exactly one of the files, in one piece and once. -/
def AppearsOnce (files : Files α) (line : List α) : Prop :=
  ∃! place : String × List α, ∃ back, files place.1 = some (place.2 ++ line ++ back)

/-- The line arrives while the file `f` is open: from the first to the last packet with a part of
it (`stretch`) there is no call and no data of another pipe that is logged. The file is not
replaced later, and a call closes it; or there is none, and the line is among what the
`StreamWriter` has passed on by itself of all that has arrived since the start. -/
structure ArrivesIn (passed : List Nat → Nat) (logPipeNames : List String) (path : String)
    (pipeId : Int) (line : List α) (early stretch late after : List (PipeLogEvent α)) (f : String) :
    Prop where
  data : ∀ e ∈ early ++ stretch ++ late, e.call? = none
  alone : ∀ d, .pipeData d ∈ stretch →
    d.pipeId = pipeId ∨ ¬RemotePipeLogger.Logs logPipeNames d.pipeName ∨ d.payload = []
  whole : line <:+: stretch.flatMap (·.output pipeId)
  kept : ∀ e ∈ after, e.creates? path ≠ some f
  reaches : (∃ c rest, after = .call c :: rest) ∨
    after = [] ∧ ∃ front back, stretch.flatMap (·.output pipeId) = front ++ line ++ back ∧
      (early.flatMap (·.logged logPipeNames)).length + front.length + line.length ≤
        passed ((writesOf logPipeNames (early ++ stretch ++ late)).map List.length)

def ArrivesWhole (passed : List Nat → Nat) (logPipeNames : List String) (path : String)
    (pipeId : Int) (events : List (PipeLogEvent α)) (line : List α) : Prop :=
  ∃ before runPrefix early stretch late after,
    events = before ++ .call (.startingFuzzRun runPrefix) :: (early ++ stretch ++ late ++ after) ∧
      ArrivesIn passed logPipeNames path pipeId line early stretch late after
        (RemotePipeLogger.buildLogFile path (some runPrefix))

section

variable {passed : List Nat → Nat} {logPipeNames : List String} {path : String} {pipeId : Int}
  {events : List (PipeLogEvent α)} {line : List α} {s : PipeLog α}

/-- The pipe is logged. -/
def LogsPipe (logPipeNames : List String) (pipeId : Int) (events : List (PipeLogEvent α)) : Prop :=
  ∀ d, .pipeData d ∈ events → d.pipeId = pipeId →
    RemotePipeLogger.Logs logPipeNames d.pipeName

/-! ## A line that arrives whole is in the file -/

/-- Where no other pipe is logged, what is logged is the output of the pipe. -/
theorem logged_eq_output {stretch : List (PipeLogEvent α)}
    (halone : ∀ d, .pipeData d ∈ stretch →
      d.pipeId = pipeId ∨ ¬RemotePipeLogger.Logs logPipeNames d.pipeName ∨ d.payload = [])
    (hlogs : LogsPipe logPipeNames pipeId stretch) :
    stretch.flatMap (·.logged logPipeNames) = stretch.flatMap (·.output pipeId) := by
  apply List.flatMap_congr
  intro e he
  cases e with
  | call c => rfl
  | pipeData d =>
      rw [PipeLogEvent.logged, PipeLogEvent.output]
      by_cases hpipe : d.pipeId = pipeId
      · rw [if_pos (hlogs d he hpipe), if_pos hpipe]
      · rw [if_neg hpipe]
        rcases halone d he with hown | hsilent | hempty
        · exact absurd hown hpipe
        · rw [if_neg hsilent]
        · rw [hempty, ite_self]

/-- What has been written around a stretch in which no other pipe is logged. -/
theorem flatten_writesOf_around (early late : List (PipeLogEvent α))
    {stretch : List (PipeLogEvent α)}
    (h : stretch.flatMap (·.logged logPipeNames) = stretch.flatMap (·.output pipeId)) :
    (writesOf logPipeNames (early ++ stretch ++ late)).flatten =
      early.flatMap (·.logged logPipeNames) ++ stretch.flatMap (·.output pipeId) ++
        late.flatMap (·.logged logPipeNames) := by
  rw [flatten_writesOf, List.flatMap_append, List.flatMap_append, h]

/-- What is in the file behind a start and what has followed. -/
theorem content_behind_start {before stretch after : List (PipeLogEvent α)} {runPrefix : String}
    (hdata : ∀ e ∈ stretch, e.call? = none) (hends : ∀ e rest, after = e :: rest → e.call? ≠ none)
    (hkept : ∀ e ∈ after,
      e.creates? path ≠ some (RemotePipeLogger.buildLogFile path (some runPrefix)))
    (hrun : (PipeLog.initial logPipeNames path fun _ => none).run passed id
      (before ++ .call (.startingFuzzRun runPrefix) :: (stretch ++ after)) = .ok s) :
    s.files (RemotePipeLogger.buildLogFile path (some runPrefix)) =
      some (contentOf passed logPipeNames stretch after) := by
  rw [← List.singleton_append, ← List.append_assoc, ← List.append_assoc, PipeLog.run_append] at hrun
  obtain ⟨mid, hmid, hafter⟩ := bind_ok.mp hrun
  have hpath := (run_logger hmid).2.1
  have hpasses := run_passes hmid
  rw [PipeLog.run_append] at hmid
  obtain ⟨first, hfirst, hstretch⟩ := bind_ok.mp hmid
  obtain ⟨start, hstart, hcall⟩ := run_snoc hfirst
  obtain ⟨hnames, -, hsink⟩ := step_logger hcall
  rw [(run_logger hstart).2.1] at hsink
  have hopen := run_stretch hsink hstretch hdata
  rw [hnames, (run_logger hstart).1, List.nil_append, List.map_id] at hopen
  cases after with
  | nil =>
      cases hafter
      exact hpasses _ hopen
  | cons e rest =>
      obtain ⟨next, hstep, hrest⟩ := run_cons hafter
      obtain ⟨he, hmore⟩ := List.forall_mem_cons.mp hkept
      have hpath' := (step_logger hstep).2.1.trans hpath
      cases e with
      | pipeData d => exact absurd rfl (hends _ _ rfl)
      | call c =>
          -- the call closes the file, and nothing opens it again
          have hclosed : next.file? ≠ some (RemotePipeLogger.buildLogFile path (some runPrefix)) := by
            rw [step_file hstep, opens_call, hpath]
            exact he
          rw [run_closed hrest hclosed (by rw [hpath']; exact hmore), step_call hstep, hpath, if_neg he]
          exact PipeLog.closed_of_sink hopen

theorem ArrivesWhole.appears (h : ArrivesWhole passed logPipeNames path pipeId events line)
    (hlogs : LogsPipe logPipeNames pipeId events)
    (hrun : (PipeLog.initial logPipeNames path fun _ => none).run passed id events = .ok s) :
    ∃ f front back, s.files f = some (front ++ line ++ back) := by
  obtain ⟨before, runPrefix, early, stretch, late, after, rfl, harrives⟩ := h
  have hlogged := logged_eq_output harrives.alone fun d hd => hlogs d (by simp [hd])
  have hflat := flatten_writesOf_around early late hlogged
  have hends : ∀ e rest, after = e :: rest → e.call? ≠ none := by
    intro e rest hafter
    rcases harrives.reaches with ⟨c, rest', hcall⟩ | ⟨hnil, -⟩
    · rw [hcall] at hafter
      cases hafter
      exact Option.some_ne_none c
    · rw [hnil] at hafter
      cases hafter
  have hcontent := content_behind_start harrives.data hends harrives.kept hrun
  refine ⟨RemotePipeLogger.buildLogFile path (some runPrefix), ?_⟩
  rw [hcontent]
  rcases harrives.reaches with ⟨c, rest, rfl⟩ | ⟨rfl, front, back, hplace, hle⟩
  · obtain ⟨front, back, hplace⟩ := harrives.whole
    refine ⟨early.flatMap (·.logged logPipeNames) ++ front,
      back ++ late.flatMap (·.logged logPipeNames), ?_⟩
    rw [contentOf, hflat, ← hplace]
    simp only [List.append_assoc]
  · have hreached : early.flatMap (·.logged logPipeNames) ++ front ++ line <+:
        contentOf passed logPipeNames (early ++ stretch ++ late) [] := by
      rw [contentOf, List.prefix_take_iff, List.length_append, List.length_append]
      refine ⟨⟨back ++ late.flatMap (·.logged logPipeNames), ?_⟩, hle⟩
      rw [hflat, hplace]
      simp only [List.append_assoc]
    obtain ⟨more, hmore⟩ := hreached
    exact ⟨early.flatMap (·.logged logPipeNames) ++ front, more, by rw [← hmore]⟩

/-! ## A line in a file has arrived whole -/

/-- The data of logged pipes is some of the data. -/
theorem logged_sublist (logPipeNames : List String) (stretch : List (PipeLogEvent α)) :
    (stretch.flatMap (·.logged logPipeNames)).Sublist (stretch.flatMap PipeLogEvent.chunk) := by
  apply List.Sublist.flatMap_right
  intro e _
  cases e with
  | call c => exact List.Sublist.refl []
  | pipeData d =>
      rw [PipeLogEvent.logged, PipeLogEvent.chunk]
      split
      · exact List.Sublist.refl _
      · exact List.nil_sublist _

theorem nodup_behind_start {before stretch after : List (PipeLogEvent α)} {e : PipeLogEvent α}
    (hevents : events = before ++ e :: (stretch ++ after))
    (hnodup : (events.flatMap PipeLogEvent.chunk).Nodup) :
    (stretch.flatMap (·.logged logPipeNames)).Nodup := by
  rw [hevents, List.flatMap_append, List.flatMap_cons, List.flatMap_append] at hnodup
  have htail := (List.nodup_append.mp (List.nodup_append.mp hnodup).2.1).2.1
  exact (logged_sublist logPipeNames stretch).nodup (List.nodup_append.mp htail).1

theorem Origin.nodup {f : String} {content : List α} {before stretch after : List (PipeLogEvent α)}
    (h : Origin passed logPipeNames path events f content before stretch after)
    (hnodup : (events.flatMap PipeLogEvent.chunk).Nodup) : content.Nodup := by
  obtain ⟨runPrefix, hevents, -⟩ := h.run
  rw [h.content_eq]
  exact (contentOf_front _ _ _ _).sublist.nodup (nodup_behind_start hevents hnodup)

/-- An element of a file was received while the file was open. -/
theorem Origin.received {f : String} {content : List α} {before stretch after : List (PipeLogEvent α)}
    (h : Origin passed logPipeNames path events f content before stretch after) {a : α}
    (ha : a ∈ content) :
    ∃ front e back, events = front ++ e :: back ∧ a ∈ e.chunk ∧ openFile path front = some f := by
  obtain ⟨runPrefix, rfl, hfile⟩ := h.run
  rw [h.content_eq] at ha
  obtain ⟨e, he, hae⟩ := List.mem_flatMap.mp ((contentOf_front _ _ _ _).subset ha)
  obtain ⟨front, back, hstretch⟩ := List.append_of_mem he
  refine ⟨before ++ .call (.startingFuzzRun runPrefix) :: front, e, back ++ after, ?_, ?_, ?_⟩
  · rw [hstretch]
    simp only [List.append_assoc, List.cons_append]
  · cases e with
    | call c => cases hae
    | pipeData d =>
        rw [PipeLogEvent.logged] at hae
        split at hae
        · exact hae
        · cases hae
  · have hdata : ∀ x ∈ front, x.call? = none := fun x hx =>
      h.data x (hstretch ▸ List.mem_append_left _ hx)
    rw [openFile_start path before front runPrefix hdata, hfile]

theorem appears_unique (hnodup : (events.flatMap PipeLogEvent.chunk).Nodup)
    (hrun : (PipeLog.initial logPipeNames path fun _ => none).run passed id events = .ok s)
    (hne : line ≠ []) {f f' : String} {front back front' back' : List α}
    (h : s.files f = some (front ++ line ++ back))
    (h' : s.files f' = some (front' ++ line ++ back')) : f = f' ∧ front = front' := by
  obtain ⟨before, stretch, after, horigin, -⟩ := run_origin hrun _ h
  obtain ⟨before', stretch', after', horigin', -⟩ := run_origin hrun _ h'
  obtain ⟨a, ha⟩ := List.exists_mem_of_ne_nil line hne
  have hmem : ∀ front back : List α, a ∈ front ++ line ++ back := fun front back =>
    List.mem_append_left _ (List.mem_append_right _ ha)
  -- the event with this element is one and the same, and so is the file that was open then
  obtain ⟨p, e, q, hevents, hchunk, hopen⟩ := horigin.received (hmem front back)
  obtain ⟨p', e', q', hevents', hchunk', hopen'⟩ := horigin'.received (hmem front' back')
  have hsame : p = p' := event_unique hnodup hevents hevents' hchunk hchunk'
  rw [hsame, hopen'] at hopen
  obtain rfl := Option.some.inj hopen
  have hplace : front ++ line ++ back = front' ++ line ++ back' := Option.some.inj (h.symm.trans h')
  exact ⟨rfl, piece_unique hne (horigin.nodup hnodup) hplace⟩

theorem arrives_of_appears (hnodup : (events.flatMap PipeLogEvent.chunk).Nodup)
    (hlogs : LogsPipe logPipeNames pipeId events) (hne : line ≠ [])
    (hrun : (PipeLog.initial logPipeNames path fun _ => none).run passed id events = .ok s)
    (houtput : ∀ a ∈ line, a ∈ events.flatMap (·.output pipeId)) {f : String}
    {front back : List α} (h : s.files f = some (front ++ line ++ back)) :
    ArrivesWhole passed logPipeNames path pipeId events line := by
  obtain ⟨before, stretch, after, horigin, -⟩ := run_origin hrun _ h
  obtain ⟨behind, hbehind⟩ := contentOf_front passed logPipeNames stretch after
  rw [← horigin.content_eq] at hbehind
  have hinfix : line <:+: stretch.flatMap (·.logged logPipeNames) :=
    ⟨front, back ++ behind, by rw [← hbehind]; simp only [List.append_assoc]⟩
  obtain ⟨early, cover, late, rfl, hwhole, hcovers⟩ := infix_flatMap_cover hinfix
  obtain ⟨runPrefix, hevents, rfl⟩ := horigin.run
  have hmem : ∀ e ∈ cover, e ∈ events := by
    intro e he
    rw [hevents]
    simp [he]
  -- a packet of another logged pipe has no element of the line
  have halone : ∀ d, .pipeData d ∈ cover →
      d.pipeId = pipeId ∨ ¬RemotePipeLogger.Logs logPipeNames d.pipeName ∨ d.payload = [] := by
    intro d hd
    by_contra hother
    rw [not_or, not_or, not_not] at hother
    obtain ⟨hpipe, hlogged, hpayload⟩ := hother
    have hsame : (PipeLogEvent.pipeData d).logged logPipeNames = d.payload := if_pos hlogged
    have hchunk : (PipeLogEvent.pipeData d).logged logPipeNames ≠ [] := by
      rw [hsame]
      exact hpayload
    obtain ⟨a, ha, hline⟩ := hcovers _ hd hchunk
    change a ∈ (PipeLogEvent.pipeData d).logged logPipeNames at ha
    rw [hsame] at ha
    obtain ⟨e, he, hae⟩ := List.mem_flatMap.mp (houtput a hline)
    cases e with
    | call c => cases hae
    | pipeData d' =>
        rw [PipeLogEvent.output] at hae
        split at hae
        · rename_i hown
          have heq := event_unique_mem hnodup (hmem _ hd) he (e := a) ha hae
          cases heq
          exact hpipe hown
        · cases hae
  have hlogged := logged_eq_output halone fun d hd => hlogs d (hmem _ hd)
  rw [hlogged] at hwhole
  refine ⟨before, runPrefix, early, cover, late, after, hevents, horigin.data, halone, hwhole,
    horigin.kept, ?_⟩
  cases after with
  | cons e rest =>
      left
      cases e with
      | pipeData d => exact absurd rfl (horigin.ends _ _ rfl)
      | call c => exact ⟨c, rest, rfl⟩
  | nil =>
      -- the line is at the same place in what has arrived and in what has been passed on
      obtain ⟨first, last, hplace⟩ := hwhole
      refine .inr ⟨rfl, first, last, hplace.symm, ?_⟩
      have hall := flatten_writesOf_around early late hlogged
      rw [flatten_writesOf, ← hbehind, ← hplace] at hall
      have hsame : front ++ line ++ (back ++ behind) =
          (early.flatMap (·.logged logPipeNames) ++ first) ++ line ++
            (last ++ late.flatMap (·.logged logPipeNames)) := by
        simpa only [List.append_assoc] using hall
      have hdistinct : ((early ++ cover ++ late).flatMap (·.logged logPipeNames)).Nodup :=
        nodup_behind_start hevents hnodup
      rw [← hbehind] at hdistinct
      have hfront := piece_unique hne (by simpa only [List.append_assoc] using hdistinct) hsame
      have hlength := congrArg List.length horigin.content_eq
      rw [contentOf, List.length_take, hfront] at hlength
      simp only [List.length_append] at hlength
      omega

/-- For elements that can be told apart. -/
theorem appearsOnce_iff (hnodup : (events.flatMap PipeLogEvent.chunk).Nodup)
    (hlogs : LogsPipe logPipeNames pipeId events)
    (hrun : (PipeLog.initial logPipeNames path fun _ => none).run passed id events = .ok s)
    (hne : line ≠ []) (houtput : ∀ a ∈ line, a ∈ events.flatMap (·.output pipeId)) :
    AppearsOnce s.files line ↔ ArrivesWhole passed logPipeNames path pipeId events line := by
  constructor
  · rintro ⟨⟨f, front⟩, ⟨back, h⟩, -⟩
    exact arrives_of_appears hnodup hlogs hne hrun houtput h
  · intro harrives
    obtain ⟨f, front, back, h⟩ := harrives.appears hlogs hrun
    refine ⟨(f, front), ⟨back, h⟩, ?_⟩
    rintro ⟨f', front'⟩ ⟨back', h'⟩
    obtain ⟨rfl, rfl⟩ := appears_unique hnodup hrun hne h h'
    rfl

end

/-! ## Elements that can be told apart -/

/-- The event with other elements. -/
def PipeLogEvent.map (g : α → β) : PipeLogEvent α → PipeLogEvent β
  | .pipeData d => .pipeData ⟨d.pipeId, d.pipeName, d.data.map g, d.index, d.offset⟩
  | .call c => .call c

/-- Number the elements in the order in which they are received. -/
def label : Nat → List (PipeLogEvent α) → List (PipeLogEvent (α × Nat))
  | _, [] => []
  | n, .pipeData d :: events =>
      .pipeData ⟨d.pipeId, d.pipeName, d.data.zipIdx n, d.index, d.offset⟩ ::
        label (n + d.data.length) events
  | n, .call c :: events => .call c :: label n events

theorem label_map (n : Nat) (events : List (PipeLogEvent α)) :
    (label n events).map (PipeLogEvent.map Prod.fst) = events := by
  induction events generalizing n with
  | nil => rfl
  | cons e events ih =>
      cases e with
      | call c => exact congrArg _ (ih n)
      | pipeData d =>
          rw [label, List.map_cons, ih, PipeLogEvent.map, List.zipIdx_map_fst]

theorem callsOf_label (n : Nat) (events : List (PipeLogEvent α)) :
    callsOf (label n events) = callsOf events := by
  induction events generalizing n with
  | nil => rfl
  | cons e events ih =>
      cases e with
      | call c => exact congrArg _ (ih n)
      | pipeData d => exact ih _

theorem label_logsPipe {logPipeNames : List String} {pipeId : Int}
    {events : List (PipeLogEvent α)} (h : LogsPipe logPipeNames pipeId events) {n : Nat} :
    LogsPipe logPipeNames pipeId (label n events) := by
  intro d hd
  have hmem := List.mem_map_of_mem (f := PipeLogEvent.map Prod.fst) hd
  rw [label_map] at hmem
  exact h _ hmem

theorem payload_sublist (d : PipeData α) : d.payload.Sublist d.data :=
  (List.take_sublist _ _).trans (List.drop_sublist _ _)

theorem le_of_mem_label {n : Nat} {events : List (PipeLogEvent α)} {a : α × Nat}
    (ha : a ∈ (label n events).flatMap PipeLogEvent.chunk) : n ≤ a.2 := by
  induction events generalizing n with
  | nil => cases ha
  | cons e events ih =>
      cases e with
      | call c => exact ih ha
      | pipeData d =>
          rw [label, List.flatMap_cons] at ha
          rcases List.mem_append.mp ha with hfirst | hrest
          · exact List.le_snd_of_mem_zipIdx ((payload_sublist _).subset hfirst)
          · have hle := ih hrest
            omega

theorem label_nodup (n : Nat) (events : List (PipeLogEvent α)) :
    ((label n events).flatMap PipeLogEvent.chunk).Nodup := by
  induction events generalizing n with
  | nil => exact List.nodup_nil
  | cons e events ih =>
      cases e with
      | call c => exact ih n
      | pipeData d =>
          rw [label, List.flatMap_cons]
          refine List.nodup_append.mpr ⟨?_, ih _, ?_⟩
          · have hnumbers : (d.data.zipIdx n).Nodup := by
              refine List.Nodup.of_map Prod.snd ?_
              rw [List.zipIdx_map_snd]
              exact List.nodup_range'
            exact (payload_sublist _).nodup hnumbers
          · intro a ha b hb heq
            have hlt := List.snd_lt_add_of_mem_zipIdx ((payload_sublist _).subset ha)
            have hle := le_of_mem_label hb
            rw [heq] at hlt
            omega

/-! ## The bytes in the files -/

/-- What becomes of a byte. -/
def asciiByte (b : UInt8) : UInt8 := if b.toNat < 128 then b else 63

theorem asciiText_eq_map (data : List UInt8) : RemotePipeLogger.asciiText data = data.map asciiByte := by
  unfold RemotePipeLogger.asciiText asciiGetBytes asciiGetString
  rw [String.toList_ofList, List.map_map]
  apply List.map_congr_left
  intro b _
  by_cases hlt : b.toNat < 128
  · have hchar : (Char.ofNat b.toNat).toNat = b.toNat := by
      have hvalid : b.toNat.isValidChar := Or.inl (by omega)
      rw [Char.ofNat, dif_pos hvalid]
      rfl
    simp [asciiByte, hlt, hchar]
  · simp [asciiByte, hlt]

/-- ASCII characters are written as they are. -/
theorem asciiText_ascii {data : List UInt8} (h : ∀ b ∈ data, b < 128) :
    RemotePipeLogger.asciiText data = data :=
  asciiGetBytes_getString fun b hb => UInt8.lt_iff_toNat_lt.mp (h b hb)

/-- The same writes with other elements. -/
def StreamWriter.map (g : α → β) (w : StreamWriter α) : StreamWriter β :=
  ⟨w.file, w.written.map (List.map g)⟩

theorem StreamWriter.flushed_map (passed : List Nat → Nat) (g : α → β) (w : StreamWriter α) :
    (StreamWriter.map g w).flushed passed = (w.flushed passed).map g := by
  have hlengths : (List.length ∘ List.map g : List α → Nat) = List.length :=
    funext fun l => List.length_map g
  rw [StreamWriter.flushed, StreamWriter.flushed, StreamWriter.map, List.map_map, hlengths,
    List.map_take, List.map_flatten]

/-- The files of a run, and those of the same run with what becomes of the elements. -/
structure Copies (g : α → β) (files : Files β) (s : PipeLog α) (t : PipeLog β) : Prop where
  logPipeNames : t.logger.logPipeNames = s.logger.logPipeNames
  path : t.logger.path = s.logger.path
  sink : t.logger.sink = s.logger.sink.map (StreamWriter.map g)
  files : ∀ f, t.files f = (s.files f).elim (files f) fun content => some (content.map g)

section

variable {passed : List Nat → Nat} {g : α → β} {files : Files β} {s s' : PipeLog α}
  {t t' : PipeLog β}

theorem Copies.file (h : Copies g files s t) : t.file? = s.file? := by
  rw [PipeLog.file?, PipeLog.file?, h.sink, Option.map_map]
  rfl

theorem Copies.closed (h : Copies g files s t) (f : String) :
    t.closed f = (s.closed f).elim (files f) fun content => some (content.map g) := by
  by_cases hopen : s.file? = some f
  · obtain ⟨w, hw, rfl⟩ := Option.map_eq_some_iff.mp hopen
    have ht : t.logger.sink = some (StreamWriter.map g w) := by
      rw [h.sink, hw]
      rfl
    have hall := PipeLog.closed_of_sink ht
    rw [PipeLog.closed_of_sink hw]
    exact hall.trans (congrArg some (List.map_flatten).symm)
  · rw [PipeLog.closed_of_ne hopen, PipeLog.closed_of_ne (by rw [h.file]; exact hopen)]
    exact h.files f

theorem step_copies {write : List α → List β} (hwrite : ∀ data, write data = data.map g)
    (h : Copies g files s t) {e : PipeLogEvent α} (hstep : s.step passed id e = .ok s')
    (hstep' : t.step passed write e = .ok t') : Copies g files s' t' := by
  obtain ⟨hnames, hpath, hsink⟩ := step_logger hstep
  obtain ⟨hnames', hpath', hsink'⟩ := step_logger hstep'
  have hcopied : t'.logger.sink = s'.logger.sink.map (StreamWriter.map g) := by
    rw [hsink', hsink, h.sink, h.path, h.logPipeNames]
    cases e with
    | pipeData d =>
        rw [PipeLogEvent.sink, PipeLogEvent.sink]
        split
        · cases s.logger.sink with
          | none => rfl
          | some w =>
              simp only [Option.map_some, StreamWriter.map, StreamWriter.write, hwrite, List.map_append]
              rfl
        · rfl
    | call c => cases c <;> rfl
  refine ⟨?_, ?_, hcopied, fun f => ?_⟩
  · rw [hnames', hnames, h.logPipeNames]
  · rw [hpath', hpath, h.path]
  · cases e with
    | pipeData d =>
        rw [step_data hstep', step_data hstep, h.file, h.logPipeNames]
        split
        · rename_i hopen
          obtain ⟨w, hw, -⟩ := Option.map_eq_some_iff.mp hopen.1
          rw [hcopied, hsink, hw, PipeLogEvent.sink, if_pos hopen.2]
          exact congrArg some (StreamWriter.flushed_map _ _ _)
        · exact h.files f
    | call c =>
        rw [step_call hstep', step_call hstep, h.path]
        split
        · rfl
        · exact h.closed f

theorem run_copies {write : List α → List β} (hwrite : ∀ data, write data = data.map g)
    {logPipeNames : List String} {path : String} {events : List (PipeLogEvent α)}
    (hs : (PipeLog.initial logPipeNames path fun _ => none).run passed id events = .ok s)
    (ht : (PipeLog.initial logPipeNames path files).run passed write events = .ok t) :
    Copies g files s t := by
  induction events using List.reverseRecOn generalizing s t with
  | nil =>
      cases hs
      cases ht
      exact ⟨rfl, rfl, rfl, fun _ => rfl⟩
  | append_singleton events e ih =>
      obtain ⟨mid, hmid, hstep⟩ := run_snoc hs
      obtain ⟨mid', hmid', hstep'⟩ := run_snoc ht
      exact step_copies hwrite (ih hmid hmid') hstep hstep'

end

/-- Other elements are as good as another way to write them. -/
theorem run_map {γ : Type} (passed : List Nat → Nat) (g : α → β) (write : List β → List γ)
    (s : PipeLog γ) (events : List (PipeLogEvent α)) :
    s.run passed (fun content => write (content.map g)) events =
      s.run passed write (events.map (PipeLogEvent.map g)) := by
  induction events generalizing s with
  | nil => rfl
  | cons e events ih =>
      have hstep : s.step passed (fun content => write (content.map g)) e =
          s.step passed write (PipeLogEvent.map g e) := by
        cases e with
        | call c => cases c <;> rfl
        | pipeData d =>
            simp only [PipeLog.step, PipeLogEvent.map, RemotePipeLogger.handlerPipeData,
              List.map_take, List.map_drop]
      rw [List.map_cons, PipeLog.run, PipeLog.run, List.foldlM_cons, List.foldlM_cons, hstep]
      exact congrArg _ (funext ih)

/-! ## During a session -/

section

variable {W S L : Type} [DecidableEq L] {env : Environment W S L} {bps : Breakpoints}
  {stops examined : List DebuggerStop} {logDestination : String} {fuzzLocation : List L}
  {lastDebuggerStop : Option DebuggerStop} {fs : FileSystem} {world : W} {st : FuzzState W S L}

/-- The files of the numbered bytes are those of the logger, and the lines of a pipe that are in
one piece in one of them are those that arrive whole. -/
theorem pipe_line_kept_iff (hfuzz : fuzz env bps stops
      (initialState logDestination fuzzLocation lastDebuggerStop fs world) = .ok (st, examined))
    (passed : List Nat → Nat) (logPipeNames : List String) (path : String) (files : Files UInt8)
    (pipeId : Int) (events : List (PipeLogEvent UInt8)) (hcalls : callsOf events = st.dataLogger.calls)
    (hlogs : LogsPipe logPipeNames pipeId events) :
    ∃ numbered written,
      (PipeLog.initial logPipeNames path fun _ => none).run passed id (label 0 events) =
        .ok numbered ∧
      (PipeLog.initial logPipeNames path files).run passed RemotePipeLogger.asciiText events =
        .ok written ∧
      (∀ f, written.files f = (numbered.files f).elim (files f) fun content =>
        some (RemotePipeLogger.asciiText (content.map Prod.fst))) ∧
      ∀ line, IsLine Prod.fst ((label 0 events).flatMap (·.output pipeId)) line →
        RemotePipeLogger.asciiText (line.map Prod.fst) = line.map Prod.fst ∧
        (AppearsOnce numbered.files line ↔
          ArrivesWhole passed logPipeNames path pipeId (label 0 events) line) := by
  have hsession := (session_loggers hfuzz).1.calls
  have halternates : Alternates false (callsOf (label 0 events)) := by
    rw [callsOf_label, hcalls, hsession]
    exact runCalls_alternates _ _ _
  obtain ⟨numbered, hnumbered⟩ : ∃ numbered,
      (PipeLog.initial logPipeNames path fun _ => none).run passed id (label 0 events) =
        .ok numbered := run_total halternates
  obtain ⟨written, hwritten⟩ : ∃ written, (PipeLog.initial logPipeNames path files).run passed
      (fun content => RemotePipeLogger.asciiText (content.map Prod.fst)) (label 0 events) =
        .ok written := run_total halternates
  have hbytes : ∀ content : List (UInt8 × Nat), RemotePipeLogger.asciiText (content.map Prod.fst) =
      content.map (asciiByte ∘ Prod.fst) := by
    intro content
    rw [asciiText_eq_map, List.map_map]
  have hcopies := run_copies hbytes hnumbered hwritten
  -- the numbers are gone once the bytes are written
  rw [run_map, label_map] at hwritten
  refine ⟨numbered, written, hnumbered, hwritten, fun f => ?_, fun line hline => ⟨?_, ?_⟩⟩
  · rw [hcopies.files f]
    simp only [hbytes]
  · apply asciiText_ascii
    intro b hb
    obtain ⟨a, ha, rfl⟩ := List.mem_map.mp hb
    exact hline.ascii a ha
  · have hne : line ≠ [] := by
      obtain ⟨body, newLine, rfl, -⟩ := hline.ends
      simp
    have houtput : ∀ a ∈ line, a ∈ (label 0 events).flatMap (·.output pipeId) := by
      obtain ⟨front, back, heq, -⟩ := hline.inside
      intro a ha
      rw [heq]
      exact List.mem_append_left _ (List.mem_append_right _ ha)
    exact appearsOnce_iff (label_nodup 0 events) (label_logsPipe hlogs) hnumbered hne houtput

end

/-- A line in two packets, while the file of the first run is open, which is then finished. -/
def lineInRun : List (PipeLogEvent UInt8) :=
  [.call (.startingFuzzRun (prefixText 1)), .pipeData ⟨2, "stdout", [97], 0, 1⟩,
    .pipeData ⟨2, "stdout", [10], 0, 1⟩, .call (.finishedFuzzRun (prefixText 1)),
    .call (.startingFuzzRun (prefixText 2))]

theorem pipe_line_kept_iff_in_run :
    ∃ numbered written,
      (PipeLog.initial [] "log" fun _ => none).run passedInBlocks id (label 0 lineInRun) =
        .ok numbered ∧
      (PipeLog.initial [] "log" fun _ => none).run passedInBlocks RemotePipeLogger.asciiText
        lineInRun = .ok written ∧
      AppearsOnce numbered.files [((97 : UInt8), 0), (10, 1)] := by
  obtain ⟨st, hfuzz, hcalls⟩ := quiet_calls 1
  have hlogs : LogsPipe [] 2 lineInRun := fun d _ _ => Or.inl rfl
  obtain ⟨numbered, written, hnumbered, hwritten, -, hlines⟩ :=
    pipe_line_kept_iff hfuzz passedInBlocks [] "log" (fun _ => none) 2 lineInRun hcalls.symm hlogs
  refine ⟨numbered, written, hnumbered, hwritten, ?_⟩
  have hline : IsLine Prod.fst ((label 0 lineInRun).flatMap (·.output 2))
      [((97 : UInt8), 0), (10, 1)] :=
    ⟨⟨[], [], rfl, by simp⟩, ⟨[(97, 0)], (10, 1), rfl, rfl, by simp⟩, by simp⟩
  refine ((hlines _ hline).2).mpr ⟨[], prefixText 1, [],
    [.pipeData ⟨2, "stdout", [(97, 0)], 0, 1⟩, .pipeData ⟨2, "stdout", [(10, 1)], 0, 1⟩], [],
    [.call (.finishedFuzzRun (prefixText 1)), .call (.startingFuzzRun (prefixText 2))],
    rfl, ?_, ?_, ⟨[], [], rfl⟩, ?_, .inl ⟨_, _, rfl⟩⟩
  · simp [PipeLogEvent.call?]
  · intro d hd
    simp at hd
    rcases hd with rfl | rfl <;> exact Or.inl rfl
  · intro e he
    rcases List.mem_cons.mp he with rfl | he
    · exact fun h => by cases h
    · obtain rfl := List.mem_singleton.mp he
      exact fun h => absurd (Option.some.inj h) (by decide +kernel)

/-- The same line, between the finish of the first run and the start of the second. -/
def lineBetweenRuns : List (PipeLogEvent UInt8) :=
  [.call (.startingFuzzRun (prefixText 1)), .call (.finishedFuzzRun (prefixText 1)),
    .pipeData ⟨2, "stdout", [97, 10], 0, 2⟩, .call (.startingFuzzRun (prefixText 2))]

/-- It is in none of the files. -/
theorem pipe_line_dropped :
    ∃ st numbered written line,
      fuzz quietEnvironment ⟨0x1000, 0x2000⟩ [restoreStop]
        (initialState "log" [()] (some snapshotStop) (fun _ => none) ()) =
          .ok (st, [snapshotStop, restoreStop]) ∧
      callsOf lineBetweenRuns = st.dataLogger.calls ∧ LogsPipe [] 2 lineBetweenRuns ∧
      (PipeLog.initial [] "log" fun _ => none).run passedInBlocks id (label 0 lineBetweenRuns) =
        .ok numbered ∧
      (PipeLog.initial [] "log" fun _ => none).run passedInBlocks RemotePipeLogger.asciiText
        lineBetweenRuns = .ok written ∧
      IsLine Prod.fst ((label 0 lineBetweenRuns).flatMap (·.output 2)) line ∧
      ¬AppearsOnce numbered.files line ∧
      ∀ f content, written.files f = some content → content = [] := by
  obtain ⟨st, hfuzz, hcalls⟩ := quiet_calls 1
  have hempty : ∀ {α : Type} (first second f : String) (content : List α),
      Function.update (Function.update (Function.update (fun _ => none) first (some []))
        first (some [])) second (some []) f = some content → content = [] := by
    intro α first second f content h
    simp only [Function.update_idem, Function.update_apply] at h
    split at h
    · exact (Option.some.inj h).symm
    · split at h
      · exact (Option.some.inj h).symm
      · cases h
  refine ⟨st, _, _, [(97, 0), (10, 1)], hfuzz, hcalls.symm, fun d _ _ => Or.inl rfl, rfl, rfl,
    ⟨⟨[], [], rfl, by simp⟩, ⟨[(97, 0)], (10, 1), rfl, rfl, by simp⟩, by simp⟩, ?_, ?_⟩
  · rintro ⟨⟨f, front⟩, ⟨back, h⟩, -⟩
    have hnil := hempty _ _ _ _ h
    simp at hnil
  · exact hempty _ _

end InMemoryFuzzing.Fuzz

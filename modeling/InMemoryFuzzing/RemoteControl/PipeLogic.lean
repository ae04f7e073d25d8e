import InMemoryFuzzing.RemoteControl.PipeNet

/-!
# Why names and ids stay in step

The invariant of `pipeSystem` has two halves. `WireInv` is about the server: the
`k`-th request has the id `n0 + k` in `int16_t`, and the frames with one id are
`RPIR`, `RPIP`s and at most one `RPIC`, in this order. `Books` is about the
client: its tables are a function of what was issued and received. They meet in
`Books.receive`, and `netInv_of_reachable` carries them along every run.
-/

namespace InMemoryFuzzing.RemoteControl

open Base Platform DotNet

/-! ## The frames of one pipe -/

/-- The bytes a thread has read and not sent yet. -/
def ThreadPhase.inHand : ThreadPhase → List UInt8
  | .sending chunk => chunk
  | _ => []

/-- The last frame of a thread that has sent it. -/
def ThreadPhase.farewell (pipeId : Int) : ThreadPhase → List PipeFrame
  | .closed => [.closed pipeId]
  | _ => []

/-- The frames sent about the pipe of `t`. -/
def Trace (t : PipeThread) (frames : List PipeFrame) : Prop :=
  ∃ chunks : List (List UInt8), frames = .registered t.pipeId ::
      (chunks.map (PipeFrame.data t.pipeId) ++ t.phase.farewell t.pipeId) ∧
    t.consumed = chunks.flatten ++ t.phase.inHand

/-- A step extends the trace by what it sends. -/
theorem Trace.step {t t' : PipeThread} {act : ThreadAct} {sent : Option PipeFrame}
    {frames : List PipeFrame} (h : Trace t frames) (hstep : t.step act = some (t', sent)) :
    Trace t' (frames ++ sent.toList) := by
  obtain ⟨chunks, rfl, hconsumed⟩ := h
  rcases PipeThread.step_cases hstep with ⟨hp, rfl, rfl⟩ | ⟨hp, _, rfl, rfl⟩ |
      ⟨chunk, hp, rfl, rfl⟩ | ⟨hp, rfl, rfl⟩ | ⟨chunk, hp, rfl, rfl⟩ | ⟨hp, rfl, rfl⟩
  all_goals rw [hp] at hconsumed
  all_goals simp only [ThreadPhase.inHand, List.append_nil] at hconsumed
  · exact ⟨chunks, by simp [hp, ThreadPhase.farewell], by simpa [ThreadPhase.inHand]⟩
  · exact ⟨chunks, by simp [hp, ThreadPhase.farewell], by simpa [ThreadPhase.inHand]⟩
  · exact ⟨chunks, by simp [hp, ThreadPhase.farewell], by simp [ThreadPhase.inHand, hconsumed]⟩
  · exact ⟨chunks, by simp [hp, ThreadPhase.farewell], by simpa [ThreadPhase.inHand]⟩
  · -- the chunk in hand becomes the last one sent
    exact ⟨chunks ++ [chunk], by simp [hp, ThreadPhase.farewell],
      by simpa [ThreadPhase.inHand] using hconsumed⟩
  · exact ⟨chunks, by simp [hp, ThreadPhase.farewell], by simpa [ThreadPhase.inHand]⟩

/-- In front of a frame of the trace there is no `RPIC`, and there is the `RPIR`
unless the frame is that. -/
theorem Trace.split {t : PipeThread} {pre post : List PipeFrame} {f : PipeFrame}
    (h : Trace t (pre ++ f :: post)) : PipeFrame.closed t.pipeId ∉ pre ∧
      (pre = [] ∧ f = .registered t.pipeId ∨
        PipeFrame.registered t.pipeId ∈ pre ∧ f ≠ .registered t.pipeId) := by
  obtain ⟨chunks, heq, _⟩ := h
  have hshort : (t.phase.farewell t.pipeId).length ≤ 1 := by
    unfold ThreadPhase.farewell
    split <;> simp
  cases pre with
  | nil =>
      injection heq with hf _
      exact ⟨List.not_mem_nil, Or.inl ⟨rfl, hf⟩⟩
  | cons first pre =>
      obtain ⟨hfirst, hrest⟩ := List.cons.inj heq
      rw [List.append_eq] at hrest
      subst hfirst
      -- all but the last of what follows the `RPIR` are `RPIP`s
      have hdata : pre <+: chunks.map (PipeFrame.data t.pipeId) := by
        refine List.prefix_of_prefix_length_le ⟨f :: post, hrest⟩ (List.prefix_append _ _) ?_
        have := congrArg List.length hrest
        simp only [List.length_append, List.length_cons] at this
        omega
      refine ⟨?_, Or.inr ⟨List.mem_cons_self, ?_⟩⟩
      · intro hmem
        rcases List.mem_cons.mp hmem with hmem | hmem
        · cases hmem
        · obtain ⟨_, _, hbad⟩ := List.mem_map.mp (hdata.subset hmem)
          cases hbad
      · intro hf
        have hmem : f ∈ chunks.map (PipeFrame.data t.pipeId) ++ t.phase.farewell t.pipeId :=
          hrest ▸ List.mem_append_right _ List.mem_cons_self
        rw [hf] at hmem
        rcases List.mem_append.mp hmem with hmem | hmem
        · obtain ⟨_, _, hbad⟩ := List.mem_map.mp hmem
          cases hbad
        · unfold ThreadPhase.farewell at hmem
          split at hmem
          · cases List.mem_singleton.mp hmem
          · cases hmem

/-- The bytes of an `RPIP` frame. -/
def PipeFrame.chunk? : PipeFrame → Option (List UInt8)
  | .data _ chunk => some chunk
  | _ => none

/-- What has arrived of a trace carries a prefix of the bytes read, and all of
them once the `RPIC` has arrived. -/
theorem Trace.payload {t : PipeThread} {frames pre : List PipeFrame} (h : Trace t frames)
    (hpre : pre <+: frames) : (pre.filterMap PipeFrame.chunk?).flatten <+: t.consumed ∧
      (PipeFrame.closed t.pipeId ∈ pre →
        (pre.filterMap PipeFrame.chunk?).flatten = t.consumed) := by
  obtain ⟨post, rfl⟩ := hpre
  have hclosed : PipeFrame.closed t.pipeId ∈ pre → post = [] := by
    intro hmem
    cases post with
    | nil => rfl
    | cons f post => exact absurd hmem h.split.1
  obtain ⟨chunks, heq, hconsumed⟩ := h
  have hfarewell : (t.phase.farewell t.pipeId).filterMap PipeFrame.chunk? = [] := by
    unfold ThreadPhase.farewell
    split <;> rfl
  have hall : (pre ++ post).filterMap PipeFrame.chunk? = chunks := by
    rw [heq, List.filterMap_cons, List.filterMap_append, hfarewell, List.append_nil,
      List.filterMap_map]
    simp [PipeFrame.chunk?, Function.comp_def]
  rw [List.filterMap_append] at hall
  constructor
  · refine ⟨(post.filterMap PipeFrame.chunk?).flatten ++ t.phase.inHand, ?_⟩
    rw [hconsumed, ← hall, List.flatten_append, List.append_assoc]
  · intro hmem
    rw [hclosed hmem] at hall heq
    rw [List.filterMap_nil, List.append_nil] at hall
    have hphase : t.phase = .closed := by
      rw [List.append_nil] at heq
      rw [heq] at hmem
      rcases List.mem_cons.mp hmem with hmem | hmem
      · cases hmem
      · rcases List.mem_append.mp hmem with hmem | hmem
        · obtain ⟨_, _, hbad⟩ := List.mem_map.mp hmem
          cases hbad
        · unfold ThreadPhase.farewell at hmem
          split at hmem
          · assumption
          · cases hmem
    have hhand : t.phase.inHand = [] := by rw [hphase]; rfl
    rw [hconsumed, hall, hhand, List.append_nil]

/-! ## The server's half -/

/-- The id of an `RPIR` frame. -/
def PipeFrame.opened? : PipeFrame → Option Int
  | .registered pipeId => some pipeId
  | _ => none

/-- The frames with a given id. -/
def framesOf (wire : List PipeFrame) (i : Int) : List PipeFrame :=
  wire.filter fun f => f.pipeId = i

/-- The server and all it has sent. -/
structure WireInv (n0 : Int) (sv : Server) (wire : List PipeFrame) : Prop where
  next : sv.nextPipeId = pipeIdOf n0 sv.all.length
  ids : ∀ (k : Nat) t, sv.all[k]? = some t → t.pipeId = pipeIdOf n0 k
  opened : wire.filterMap PipeFrame.opened? = (List.range sv.all.length).map (pipeIdOf n0)
  trace : ∀ (k : Nat) t, sv.all[k]? = some t → Trace t (framesOf wire t.pipeId)
  known : ∀ f ∈ wire, ∃ t ∈ sv.all, f.pipeId = t.pipeId

theorem framesOf_append (wire more : List PipeFrame) (i : Int) :
    framesOf (wire ++ more) i = framesOf wire i ++ framesOf more i := List.filter_append _ _

theorem framesOf_eq_nil {wire : List PipeFrame} {i : Int} (h : ∀ f ∈ wire, f.pipeId ≠ i) :
    framesOf wire i = [] := by
  rw [framesOf, List.filter_eq_nil_iff]
  intro f hf
  simpa using h f hf

theorem framesOf_eq_self {wire : List PipeFrame} {i : Int} (h : ∀ f ∈ wire, f.pipeId = i) :
    framesOf wire i = wire := by
  rw [framesOf, List.filter_eq_self]
  intro f hf
  simpa using h f hf

theorem framesOf_cons_self (f : PipeFrame) (rest : List PipeFrame) :
    framesOf (f :: rest) f.pipeId = f :: framesOf rest f.pipeId := by
  simp [framesOf]

/-- The ids of the requests so far differ. -/
theorem WireInv.ids_ne {n0 : Int} {sv : Server} {wire : List PipeFrame} (h : WireInv n0 sv wire)
    {j k : Nat} {t u : PipeThread} (hk : sv.all[k]? = some t) (hj : sv.all[j]? = some u)
    (hlen : sv.all.length ≤ 65536) (hne : j ≠ k) : u.pipeId ≠ t.pipeId := by
  have hj' := (List.getElem?_eq_some_iff.mp hj).1
  have hk' := (List.getElem?_eq_some_iff.mp hk).1
  rw [h.ids j u hj, h.ids k t hk]
  exact fun heq => hne (pipeIdOf_inj (by omega) (by omega) heq)

/-- A new request. -/
theorem WireInv.request {n0 : Int} {sv sv' : Server} {wire : List PipeFrame}
    (h : WireInv n0 sv wire) (hlen : sv.all.length < 65536) {t : PipeThread}
    (ht : t.pipeId = sv.nextPipeId ∧ t.phase = .opening ∧ t.consumed = [])
    (hall : sv'.all = sv.all ++ [t]) (hnext : sv'.nextPipeId = CLib.int16 (sv.nextPipeId + 1)) :
    WireInv n0 sv' (wire ++ [.registered sv.nextPipeId]) := by
  have hid : t.pipeId = pipeIdOf n0 sv.all.length := ht.1.trans h.next
  have hget : ∀ (k : Nat) u, sv'.all[k]? = some u →
      (k < sv.all.length ∧ sv.all[k]? = some u) ∨ (k = sv.all.length ∧ u = t) := by
    intro k u hu
    have hk := (List.getElem?_eq_some_iff.mp hu).1
    rw [hall] at hu hk
    rw [List.length_append, List.length_singleton] at hk
    by_cases hlast : k = sv.all.length
    · subst hlast
      rw [List.getElem?_concat_length] at hu
      exact Or.inr ⟨rfl, (Option.some.inj hu).symm⟩
    · rw [List.getElem?_append_left (by omega)] at hu
      exact Or.inl ⟨by omega, hu⟩
  have hfresh : ∀ f ∈ wire, f.pipeId ≠ sv.nextPipeId := by
    intro f hf heq
    obtain ⟨u, hu, hfu⟩ := h.known f hf
    obtain ⟨j, hj⟩ := List.getElem?_of_mem hu
    have hjlen := (List.getElem?_eq_some_iff.mp hj).1
    have : pipeIdOf n0 j = pipeIdOf n0 sv.all.length := by
      rw [← h.ids j u hj, ← hfu, heq, h.next]
    have := pipeIdOf_inj (by omega) (by omega) this
    omega
  refine ⟨?_, ?_, ?_, ?_, ?_⟩
  · rw [hnext, h.next, pipeIdOf_succ, hall, List.length_append]
    rfl
  · intro k u hu
    rcases hget k u hu with ⟨_, hu⟩ | ⟨rfl, rfl⟩
    · exact h.ids k u hu
    · exact hid
  · rw [List.filterMap_append, h.opened, hall, List.length_append, List.length_singleton,
      List.range_succ, List.map_append, h.next]
    rfl
  · intro k u hu
    rcases hget k u hu with ⟨hk, hu⟩ | ⟨rfl, rfl⟩
    · -- the pipes requested before are not touched
      have hne : PipeFrame.pipeId (.registered sv.nextPipeId) ≠ u.pipeId := by
        show sv.nextPipeId ≠ u.pipeId
        rw [h.next, h.ids k u hu]
        intro heq
        have := pipeIdOf_inj (by omega) (by omega) heq
        omega
      have hnone : framesOf [.registered sv.nextPipeId] u.pipeId = [] :=
        framesOf_eq_nil fun f hf => by rw [List.mem_singleton.mp hf]; exact hne
      rw [framesOf_append, hnone, List.append_nil]
      exact h.trace k u hu
    · rw [framesOf_append, framesOf_eq_nil (by rw [ht.1]; exact hfresh),
        framesOf_eq_self fun f hf => by rw [List.mem_singleton.mp hf]; exact ht.1.symm]
      exact ⟨[], by simp [ht, ThreadPhase.farewell], by simp [ht, ThreadPhase.inHand]⟩
  · intro f hf
    rw [hall]
    rcases List.mem_append.mp hf with hf | hf
    · obtain ⟨u, hu, hfu⟩ := h.known f hf
      exact ⟨u, List.mem_append_left _ hu, hfu⟩
    · rw [List.mem_singleton.mp hf]
      exact ⟨t, List.mem_append_right _ (List.mem_singleton_self _), ht.1.symm⟩

/-- A step of a pipe thread. -/
theorem WireInv.thread {n0 : Int} {sv sv' : Server} {wire : List PipeFrame}
    (h : WireInv n0 sv wire) (hlen : sv.all.length ≤ 65536) {k : Nat} {t t' : PipeThread}
    {act : ThreadAct} {sent : Option PipeFrame} (ht : sv.all[k]? = some t)
    (hstep : t.step act = some (t', sent)) (hall : sv'.all = sv.all.set k t')
    (hnext : sv'.nextPipeId = sv.nextPipeId) : WireInv n0 sv' (wire ++ sent.toList) := by
  obtain ⟨hid, _, hsent⟩ := PipeThread.step_frame hstep
  have hlength : sv'.all.length = sv.all.length := by rw [hall, List.length_set]
  have hk : k < sv.all.length := (List.getElem?_eq_some_iff.mp ht).1
  -- the entries are those from before, except that `t'` is in the place of `t`
  have hget : ∀ (j : Nat) u, sv'.all[j]? = some u →
      (j = k ∧ u = t') ∨ (j ≠ k ∧ sv.all[j]? = some u) := by
    intro j u hu
    by_cases hj : j = k
    · subst hj
      rw [hall, List.getElem?_set_self hk] at hu
      exact Or.inl ⟨rfl, (Option.some.inj hu).symm⟩
    · rw [hall, List.getElem?_set_ne (Ne.symm hj)] at hu
      exact Or.inr ⟨hj, hu⟩
  refine ⟨?_, ?_, ?_, ?_, ?_⟩
  · rw [hnext, h.next, hlength]
  · intro j u hu
    rcases hget j u hu with ⟨rfl, rfl⟩ | ⟨_, hu⟩
    · rw [hid, h.ids j t ht]
    · exact h.ids j u hu
  · have hnone : sent.toList.filterMap PipeFrame.opened? = [] := by
      rcases PipeThread.step_cases hstep with ⟨_, _, rfl⟩ | ⟨_, _, _, rfl⟩ | ⟨_, _, _, rfl⟩ |
        ⟨_, _, rfl⟩ | ⟨_, _, _, rfl⟩ | ⟨_, _, rfl⟩ <;> rfl
    rw [List.filterMap_append, hnone, List.append_nil, h.opened, hlength]
  · intro j u hu
    rw [framesOf_append]
    rcases hget j u hu with ⟨rfl, rfl⟩ | ⟨hj, hu⟩
    · rw [hid, framesOf_eq_self fun f hf => hsent f (Option.mem_toList.mp hf)]
      exact (h.trace j t ht).step hstep
    · have hnone : framesOf sent.toList u.pipeId = [] := by
        refine framesOf_eq_nil fun f hf => ?_
        rw [hsent f (Option.mem_toList.mp hf)]
        exact (h.ids_ne ht hu hlen hj).symm
      rw [hnone, List.append_nil]
      exact h.trace j u hu
  · intro f hf
    rcases List.mem_append.mp hf with hf | hf
    · obtain ⟨u, hu, hfu⟩ := h.known f hf
      rw [hall]
      obtain ⟨j, hj⟩ := List.getElem?_of_mem hu
      by_cases hjk : j = k
      · subst hjk
        rw [ht] at hj
        cases hj
        exact ⟨t', List.mem_set hk _, hfu.trans hid.symm⟩
      · refine ⟨u, List.mem_of_getElem? (i := j) ?_, hfu⟩
        rw [List.getElem?_set_ne (Ne.symm hjk), hj]
    · refine ⟨t', ?_, (hsent f (Option.mem_toList.mp hf)).trans hid.symm⟩
      rw [hall]
      exact List.mem_set hk _

/-- Every step of the server keeps its half. -/
theorem WireInv.step {n0 : Int} {sv sv' : Server} {wire : List PipeFrame} {act : ServerAct}
    {sent : Option PipeFrame} (h : WireInv n0 sv wire) (hlen : sv'.all.length ≤ 65536)
    (hstep : sv.step act = some (sv', sent)) : WireInv n0 sv' (wire ++ sent.toList) := by
  rcases Server.step_all hstep with ⟨data, _, hall, hnext, rfl⟩ | ⟨_, hall, hnext, rfl⟩ |
      ⟨k, tact, t, t', _, ht, htstep, hall, hnext⟩
  · rw [hall, List.length_append, List.length_singleton] at hlen
    exact h.request (by omega) ⟨rfl, rfl, rfl⟩ hall hnext
  · rw [Option.toList_none, List.append_nil]
    exact ⟨by rw [hnext, hall, h.next], by rw [hall]; exact h.ids, by rw [hall]; exact h.opened,
      by rw [hall]; exact h.trace, by rw [hall]; exact h.known⟩
  · rw [hall, List.length_set] at hlen
    exact h.thread hlen ht htstep hall hnext

/-- What has been sent in front of a frame: no `RPIC` of its pipe, and the `RPIR`
unless the frame is that. -/
theorem WireInv.cut {n0 : Int} {sv : Server} {received rest : List PipeFrame} {f : PipeFrame}
    (h : WireInv n0 sv (received ++ f :: rest)) :
    ∃ k, k < sv.all.length ∧ f.pipeId = pipeIdOf n0 k ∧ PipeFrame.closed f.pipeId ∉ received ∧
      (PipeFrame.registered f.pipeId ∉ received ∧ f = .registered f.pipeId ∨
        PipeFrame.registered f.pipeId ∈ received ∧ f ≠ .registered f.pipeId) := by
  obtain ⟨t, ht, hfid⟩ := h.known f (List.mem_append_right _ List.mem_cons_self)
  obtain ⟨k, hk⟩ := List.getElem?_of_mem ht
  have hklen := (List.getElem?_eq_some_iff.mp hk).1
  have htrace := h.trace k t hk
  rw [← hfid, framesOf_append, framesOf_cons_self] at htrace
  have hmem : ∀ g, g.pipeId = f.pipeId → (g ∈ framesOf received f.pipeId ↔ g ∈ received) := by
    intro g hg
    simp [framesOf, hg]
  obtain ⟨hclosed, hfirst⟩ := htrace.split
  rw [← hfid] at hclosed hfirst
  rw [hmem (.closed f.pipeId) rfl] at hclosed
  refine ⟨k, hklen, hfid.trans (h.ids k t hk), hclosed, ?_⟩
  rcases hfirst with ⟨hnil, heq⟩ | ⟨hin, hne⟩
  · refine Or.inl ⟨?_, heq⟩
    rw [← hmem (.registered f.pipeId) rfl, hnil]
    exact List.not_mem_nil
  · exact Or.inr ⟨(hmem (.registered f.pipeId) rfl).mp hin, hne⟩

/-- As many `RPIR`s are sent in front of an `RPIR` as requests precede its own. -/
theorem WireInv.opened_count {n0 : Int} {sv : Server} {received rest : List PipeFrame} {i : Int}
    (h : WireInv n0 sv (received ++ .registered i :: rest)) (hlen : sv.all.length ≤ 65536) :
    (received.filterMap PipeFrame.opened?).length = requestIndex n0 i := by
  have hopened := h.opened
  rw [List.filterMap_append] at hopened
  have hget := congrArg (fun l => l[(received.filterMap PipeFrame.opened?).length]?) hopened
  have hle := congrArg List.length hopened
  simp only [List.length_append, List.filterMap_cons, PipeFrame.opened?, List.length_cons,
    List.length_map, List.length_range] at hle
  simp only [List.getElem?_append_right (Nat.le_refl _), Nat.sub_self, List.filterMap_cons,
    PipeFrame.opened?, List.getElem?_cons_zero, List.getElem?_map] at hget
  rw [List.getElem?_range (by omega), Option.map_some, Option.some.injEq] at hget
  rw [hget, requestIndex_pipeIdOf n0 (by omega)]

/-! ## The client's half -/

/-- The name of the request an id belongs to. -/
def nameOf (n0 : Int) (issued : List String) (i : Int) : String :=
  (issued[requestIndex n0 i]?).getD "<not available>"

/-- The client's tables, after the requests `issued` and the frames `received`. -/
structure Books (n0 : Int) (issued : List String) (received : List PipeFrame)
    (c : PipeClient) : Prop where
  queue : c.requestedPipes = issued.drop (received.filterMap PipeFrame.opened?).length
  names : ∀ i, c.registeredPipes i =
    if .registered i ∈ received ∧ .closed i ∉ received then issued[requestIndex n0 i]? else none
  events : c.events = received.map fun f => f.event (nameOf n0 issued f.pipeId)

/-- What the client may rely on about a frame that has arrived. -/
def Attributed (n0 : Int) (issued : List String) (f : PipeFrame) : Prop :=
  ∃ k, k < issued.length ∧ f.pipeId = pipeIdOf n0 k

theorem Attributed.index {n0 : Int} {issued : List String} {f : PipeFrame}
    (h : Attributed n0 issued f) (hfew : issued.length < 65536) :
    requestIndex n0 f.pipeId < issued.length := by
  obtain ⟨k, hk, hid⟩ := h
  rw [hid, requestIndex_pipeIdOf n0 (by omega)]
  exact hk

/-- A new request is queued and changes no name that is in use. -/
theorem Books.enqueue {n0 : Int} {issued : List String} {received : List PipeFrame}
    {c : PipeClient} (h : Books n0 issued received c) (hfew : issued.length < 65536)
    (hopened : (received.filterMap PipeFrame.opened?).length ≤ issued.length)
    (hall : ∀ f ∈ received, Attributed n0 issued f) (pipeName : String) :
    Books n0 (issued ++ [pipeName]) received
      { c with requestedPipes := c.requestedPipes ++ [pipeName] } := by
  have hsame : ∀ f ∈ received, (issued ++ [pipeName])[requestIndex n0 f.pipeId]? =
      issued[requestIndex n0 f.pipeId]? := fun f hf =>
    List.getElem?_append_left ((hall f hf).index hfew)
  refine ⟨?_, ?_, ?_⟩
  · show c.requestedPipes ++ [pipeName] = _
    rw [h.queue, List.drop_append_of_le_length hopened]
  · intro i
    show c.registeredPipes i = _
    rw [h.names i]
    split
    · rename_i hin
      exact (hsame _ hin.1).symm
    · rfl
  · show c.events = _
    rw [h.events]
    apply List.map_congr_left
    intro f hf
    rw [nameOf, nameOf, hsame f hf]

/-- The client's tables after one more `RPIR`: it is the answer to the oldest
request in the queue. -/
theorem Books.registered {n0 : Int} {issued : List String} {received : List PipeFrame}
    {c : PipeClient} {i : Int} (h : Books n0 issued received c)
    (hcount : (received.filterMap PipeFrame.opened?).length = requestIndex n0 i)
    (hlt : requestIndex n0 i < issued.length) (hclosed : PipeFrame.closed i ∉ received) :
    ∃ rest, c.requestedPipes = nameOf n0 issued i :: rest ∧
      Books n0 issued (received ++ [.registered i])
        ((({ c with requestedPipes := rest } : PipeClient).register i (nameOf n0 issued i)).raise
          (.opened i (nameOf n0 issued i))) := by
  have hname : issued[requestIndex n0 i]? = some (nameOf n0 issued i) := by
    rw [nameOf, List.getElem?_eq_getElem hlt]
    rfl
  refine ⟨issued.drop (requestIndex n0 i + 1), ?_, ?_, ?_, ?_⟩
  · rw [h.queue, hcount, List.drop_eq_getElem_cons hlt, nameOf, List.getElem?_eq_getElem hlt]
    rfl
  · rw [List.filterMap_append, List.length_append, hcount]
    rfl
  · intro j
    show (if j = i then some (nameOf n0 issued i) else c.registeredPipes j) = _
    by_cases hj : j = i
    · subst hj
      rw [if_pos rfl, if_pos ⟨by simp, by simpa using hclosed⟩, hname]
    · rw [if_neg hj, h.names]
      simp [hj]
  · show c.events ++ _ = _
    rw [h.events, List.map_append]
    rfl

/-- An `RPIP` changes no table. -/
theorem Books.data {n0 : Int} {issued : List String} {received : List PipeFrame}
    {c : PipeClient} (h : Books n0 issued received c) (i : Int) (chunk : List UInt8) :
    Books n0 issued (received ++ [.data i chunk])
      (c.raise ((PipeFrame.data i chunk).event (nameOf n0 issued i))) := by
  refine ⟨?_, ?_, ?_⟩
  · rw [List.filterMap_append,
      show [PipeFrame.data i chunk].filterMap PipeFrame.opened? = [] from rfl,
      List.append_nil]
    exact h.queue
  · intro j
    show c.registeredPipes j = _
    rw [h.names]
    simp
  · show c.events ++ _ = _
    rw [h.events, List.map_append]
    rfl

/-- An `RPIC` removes the name. -/
theorem Books.closed {n0 : Int} {issued : List String} {received : List PipeFrame}
    {c : PipeClient} (h : Books n0 issued received c) (i : Int) :
    Books n0 issued (received ++ [.closed i])
      ((c.raise (.closed i (nameOf n0 issued i))).remove i) := by
  refine ⟨?_, ?_, ?_⟩
  · rw [List.filterMap_append, show [PipeFrame.closed i].filterMap PipeFrame.opened? = [] from rfl,
      List.append_nil]
    exact h.queue
  · intro j
    show (if j = i then none else c.registeredPipes j) = _
    by_cases hj : j = i
    · subst hj
      simp
    · rw [if_neg hj, h.names]
      simp [hj]
  · show c.events ++ _ = _
    rw [h.events, List.map_append]
    rfl

/-- Between its `RPIR` and its `RPIC` a pipe has its name. -/
theorem Books.name {n0 : Int} {issued : List String} {received : List PipeFrame}
    {c : PipeClient} {i : Int} (h : Books n0 issued received c)
    (hopened : PipeFrame.registered i ∈ received) (hclosed : PipeFrame.closed i ∉ received)
    (hlt : requestIndex n0 i < issued.length) :
    c.registeredPipes i = some (nameOf n0 issued i) := by
  rw [h.names, if_pos ⟨hopened, hclosed⟩, nameOf, List.getElem?_eq_getElem hlt]
  rfl

/-- The frame at the head of what is on the way is taken without raising, and
reported under the name of its request. -/
theorem Books.receive {n0 : Int} {issued : List String} {received rest : List PipeFrame}
    {f : PipeFrame} {s : Session PipeClient} {sv : Server}
    (h : Books n0 issued received s.world) (hw : WireInv n0 sv (received ++ f :: rest))
    (hlen : sv.all.length ≤ issued.length) (hfew : issued.length < 65536) :
    ∃ s', dispatchFrame s f = .ok s' ∧ Books n0 issued (received ++ [f]) s'.world := by
  obtain ⟨k, hk, hid, hclosed, hfirst⟩ := hw.cut
  have hint : IsInt16 f.pipeId := hid ▸ pipeIdOf_isInt16 n0 k
  have hindex : requestIndex n0 f.pipeId = k := by
    rw [hid, requestIndex_pipeIdOf n0 (by omega)]
  have hlt : requestIndex n0 f.pipeId < issued.length := by omega
  have hname : f ≠ .registered f.pipeId →
      s.world.registeredPipes f.pipeId = some (nameOf n0 issued f.pipeId) := by
    intro hne
    rcases hfirst with ⟨_, heq⟩ | ⟨hin, _⟩
    · exact absurd heq hne
    · exact h.name hin hclosed hlt
  cases f with
  | registered i =>
      have hfresh : PipeFrame.registered i ∉ received := by
        rcases hfirst with ⟨hnot, _⟩ | ⟨_, hne⟩
        · exact hnot
        · exact absurd rfl hne
      obtain ⟨rest, hqueue, hbooks⟩ := h.registered (hw.opened_count (by omega)) hlt hclosed
      refine ⟨_, dispatchFrame_registered hint hqueue ?_, hbooks⟩
      rw [h.names, if_neg fun hin => hfresh hin.1]
  | data i chunk => exact ⟨_, dispatchFrame_data hint chunk (hname (by simp)), h.data i chunk⟩
  | closed i => exact ⟨_, dispatchFrame_closed hint (hname (by simp)), h.closed i⟩

/-! ## The whole system -/

/-- The C string a name becomes on the server. -/
def nameOnServer (data : List UInt8) : List UInt8 := CLib.strncpy data.length data ++ [0]

/-- The requests on their way, oldest first. -/
def PipeNet.pending (s : PipeNet) : List (List UInt8) :=
  s.requests.map Packet.data ++ s.unsent.toList.map asciiGetBytes

/-- Both halves, and every request either handled or on its way. -/
structure NetInv (n0 : Int) (s : PipeNet) : Prop where
  wire : WireInv n0 s.server (s.received ++ s.incoming)
  requests : s.server.all.map PipeThread.pipeName ++ s.pending.map nameOnServer =
    s.issued.map fun pipeName => nameOnServer (asciiGetBytes pipeName)
  client : ∃ session, s.client = .ok session ∧ Books n0 s.issued s.received session.world

theorem NetInv.handled_le {n0 : Int} {s : PipeNet} (h : NetInv n0 s) :
    s.server.all.length ≤ s.issued.length := by
  have := congrArg List.length h.requests
  simp only [List.length_append, List.length_map] at this
  omega

/-- A frame belongs to one of the requests issued. -/
theorem NetInv.attributed {n0 : Int} {s : PipeNet} (h : NetInv n0 s) {f : PipeFrame}
    (hf : f ∈ s.received ++ s.incoming) : Attributed n0 s.issued f := by
  obtain ⟨t, ht, hid⟩ := h.wire.known f hf
  obtain ⟨k, hk⟩ := List.getElem?_of_mem ht
  have hlen := (List.getElem?_eq_some_iff.mp hk).1
  exact ⟨k, by have := h.handled_le; omega, hid.trans (h.wire.ids k t hk)⟩

/-- No more answers than requests have arrived. -/
theorem NetInv.opened_le {n0 : Int} {s : PipeNet} (h : NetInv n0 s) :
    (s.received.filterMap PipeFrame.opened?).length ≤ s.issued.length := by
  have := congrArg List.length h.wire.opened
  simp only [List.filterMap_append, List.length_append, List.length_map, List.length_range] at this
  have := h.handled_le
  omega

theorem NetInv.start (n0 : Int) : NetInv n0 (.start n0) where
  wire :=
    ⟨by simp [PipeNet.start, Server.all, pipeIdOf], by simp [PipeNet.start, Server.all], rfl,
      by simp [PipeNet.start, Server.all], by simp [PipeNet.start]⟩
  requests := rfl
  client := ⟨_, rfl, rfl, fun i => by simp [PipeNet.start], rfl⟩

/-- A step of the server that handles no request. -/
theorem NetInv.serve {n0 : Int} {s s' : PipeNet} (h : NetInv n0 s) (hfew : s.issued.length < 65536)
    {act : ServerAct} (hact : ∀ data, act ≠ .request data) (hstep : s.serve act = some s') :
    NetInv n0 s' := by
  obtain ⟨⟨server, sent⟩, hsv, rfl⟩ := Option.map_eq_some_iff.mp hstep
  have hle := h.handled_le
  have hnames : server.all.map PipeThread.pipeName = s.server.all.map PipeThread.pipeName ∧
      server.all.length = s.server.all.length := by
    rcases Server.step_all hsv with ⟨data, hreq, _⟩ | ⟨_, hall, _, _⟩ |
        ⟨k, tact, t, t', _, ht, htstep, hall, _⟩
    · exact absurd hreq (hact data)
    · rw [hall]
      exact ⟨rfl, rfl⟩
    · rw [hall, List.map_set, (PipeThread.step_frame htstep).2.1, List.length_set]
      obtain ⟨hk, rfl⟩ := List.getElem?_eq_some_iff.mp ht
      refine ⟨?_, rfl⟩
      rw [← List.map_set, List.set_getElem_self]
  refine ⟨?_, ?_, h.client⟩
  · show WireInv n0 server (s.received ++ (s.incoming ++ sent.toList))
    rw [← List.append_assoc]
    exact h.wire.step (by rw [hnames.2]; omega) hsv
  · show server.all.map PipeThread.pipeName ++ _ = _
    rw [hnames.1]
    exact h.requests

/-- The main loop handles the oldest request. -/
theorem NetInv.handleRequest {n0 : Int} {s s' : PipeNet} (h : NetInv n0 s)
    (hfew : s.issued.length < 65536) {p : Packet} {rest : List Packet}
    (hrequests : s.requests = p :: rest)
    (hstep : { s with requests := rest }.serve (.request p.data) = some s') : NetInv n0 s' := by
  obtain ⟨⟨server, sent⟩, hsv, rfl⟩ := Option.map_eq_some_iff.mp hstep
  have hnames := h.requests
  simp only [PipeNet.pending, hrequests, List.map_cons, List.cons_append] at hnames
  rcases Server.step_all hsv with ⟨data, hreq, hall, _, _⟩ | ⟨hreq, _⟩ |
      ⟨k, tact, t, t', hreq, _⟩
  · cases hreq
    have hrequests' : server.all.map PipeThread.pipeName ++
        (rest.map Packet.data ++ s.unsent.toList.map asciiGetBytes).map nameOnServer =
        s.issued.map fun pipeName => nameOnServer (asciiGetBytes pipeName) := by
      rw [hall, List.map_append, List.append_assoc]
      exact hnames
    refine ⟨?_, hrequests', h.client⟩
    have hlen := congrArg List.length hrequests'
    simp only [List.length_append, List.length_map] at hlen
    show WireInv n0 server (s.received ++ (s.incoming ++ sent.toList))
    rw [← List.append_assoc]
    exact h.wire.step (by omega) hsv
  · cases hreq
  · cases hreq

/-- One step keeps the invariant, as long as the ids do not run out. -/
theorem NetInv.step {n0 : Int} {s s' : PipeNet} {act : NetAct} (h : NetInv n0 s)
    (hfew : s'.issued.length < 65536) (hstep : s.step act = some s') : NetInv n0 s' := by
  have hfew₀ : s.issued.length < 65536 := Nat.lt_of_le_of_lt (PipeNet.issued_le hstep) hfew
  obtain ⟨session, hclient, hbooks⟩ := h.client
  have hrequests := h.requests
  rcases PipeNet.step_cases hstep with ⟨pipeName, session', hunsent, hok, rfl⟩ |
      ⟨pipeName, hunsent, rfl⟩ | ⟨p, rest, hp, hserve⟩ | ⟨sact, hsact, hserve⟩ |
      ⟨f, rest, session', hincoming, hok, rfl⟩
  · cases hclient.symm.trans hok
    refine ⟨h.wire, ?_, _, rfl, hbooks.enqueue hfew₀ h.opened_le
      (fun f hf => h.attributed (List.mem_append_left _ hf)) pipeName⟩
    simp only [PipeNet.pending, hunsent, Option.toList_none, List.map_nil,
      List.append_nil] at hrequests
    simp only [PipeNet.pending, Option.toList_some, List.map_append, List.map_cons,
      List.map_nil, ← hrequests, List.append_assoc]
  · refine ⟨h.wire, ?_, h.client⟩
    simp only [PipeNet.pending, hunsent] at hrequests
    simpa [PipeNet.pending, requestPipeCommand] using hrequests
  · exact h.handleRequest hfew₀ hp hserve
  · exact h.serve hfew₀ hsact hserve
  · cases hclient.symm.trans hok
    have hwire := h.wire
    rw [hincoming] at hwire
    obtain ⟨session', hdispatch, hbooks'⟩ := hbooks.receive hwire h.handled_le hfew
    refine ⟨?_, hrequests, session', hdispatch, hbooks'⟩
    simpa using hwire

/-- **The invariant.** It holds in every reachable state with fewer than 65536
requests. -/
theorem netInv_of_reachable {n0 : Int} {s : PipeNet} (hs : (pipeSystem n0).Reachable s)
    (hfew : s.issued.length < 65536) : NetInv n0 s := by
  refine TSys.Inductive.invariant (P := fun s => s.issued.length < 65536 → NetInv n0 s) ⟨?_, ?_⟩
    s hs hfew
  · rintro s rfl _
    exact NetInv.start n0
  · intro s act s' h _ hstep hfew'
    exact (h (Nat.lt_of_le_of_lt (PipeNet.issued_le hstep) hfew')).step hfew' hstep

end InMemoryFuzzing.RemoteControl

import InMemoryFuzzing.Platform.DotNet
import InMemoryFuzzing.RemoteControl.ExecHandler

/-!
# What the EXEC handler does with a complete payload

`ExecEncoding` is the format the comment of `handler_exec` describes. Each reader
has one lemma: where its encoding stands in the payload, it reads bytes of that
encoding only and returns what was encoded. `handlerExec_returns` puts them
together.
-/

namespace InMemoryFuzzing.RemoteControl

open Base Platform
open Traced (emit undefined returns_pure returns_emit)

/-! ## The format -/

/-- `<length int16><bytes>`. -/
def encodeString (s : List UInt8) : List UInt8 := toLE 2 s.length ++ s

/-- `<count int16>[<length int16><bytes>, ...]`. -/
def encodeList (items : List (List UInt8)) : List UInt8 :=
  toLE 2 items.length ++ (items.map encodeString).flatten

/-- The fields of an EXEC payload; lengths and counts are non-negative `int16`. -/
structure ExecEncoding where
  name : List UInt8
  path : List UInt8
  args : List (List UInt8)
  env : List (List UInt8)
  name_le : name.length ≤ 32767
  path_le : path.length ≤ 32767
  args_le : args.length ≤ 32767
  env_le : env.length ≤ 32767
  arg_le : ∀ a ∈ args, a.length ≤ 32767
  item_le : ∀ e ∈ env, e.length ≤ 32767

def ExecEncoding.bytes (c : ExecEncoding) : List UInt8 :=
  encodeString c.name ++ (encodeString c.path ++ (encodeList c.args ++ encodeList c.env))

/-- What `read_string_malloc` makes of the bytes of a string. -/
def cString (s : List UInt8) : List UInt8 := CLib.strncpy s.length s ++ [0]

/-- The list `read_string_list` builds, with `k` free words in front. -/
def stringWords (k : Nat) (items : List (List UInt8)) : List Word :=
  List.replicate k .uninit ++ (items.map fun s => .str (cString s)) ++ [.null]

@[simp] theorem encodeString_length (s : List UInt8) : (encodeString s).length = 2 + s.length := by
  simp [encodeString]

theorem encodeList_length (items : List (List UInt8)) :
    (encodeList items).length = 2 + ((items.map encodeString).flatten).length := by
  simp [encodeList]

/-! ## The readers -/

/-- The computation reads nothing but indices from `lo` to `hi` and returns `a`. -/
def ReadsReturn {α : Type} (x : Traced ExecEvent α) (lo hi : Nat) (a : α) : Prop :=
  ∃ reads : List Nat, (∀ i ∈ reads, lo ≤ i ∧ i < hi) ∧ x.Returns (reads.map .read) a

theorem ReadsReturn.bind {α β : Type} {x : Traced ExecEvent α} {f : α → Traced ExecEvent β}
    {lo mid hi : Nat} {a : α} {b : β} (hx : ReadsReturn x lo mid a)
    (hf : ReadsReturn (f a) mid hi b)
    (hlo : lo ≤ mid) (hhi : mid ≤ hi) : ReadsReturn (x >>= f) lo hi b := by
  obtain ⟨front, hfront, hx⟩ := hx
  obtain ⟨back, hback, hf⟩ := hf
  refine ⟨front ++ back, ?_, ?_⟩
  · intro i hi'
    rcases List.mem_append.mp hi' with h | h
    · have := hfront i h
      omega
    · have := hback i h
      omega
  · rw [List.map_append]
    exact hx.bind hf

theorem readsReturn_pure {α : Type} (n : Nat) (a : α) :
    ReadsReturn (pure a : Traced ExecEvent α) n n a :=
  ⟨[], by simp, returns_pure a⟩

theorem int16_natCast {n : Nat} (h : n ≤ 32767) : CLib.int16 n = n := by
  rw [CLib.int16, Int.bmod_def]
  omega

theorem readInt16At_holds {data : Memory UInt8} {offset n : Nat}
    (h : data.Holds offset (toLE 2 n)) (hn : n ≤ 32767) :
    ReadsReturn (readInt16At data offset) offset (offset + 2) (n : Int) := by
  refine ⟨[offset, offset + 1], ?_, ?_⟩
  · intro i hi
    simp only [List.mem_cons, List.not_mem_nil, or_false] at hi
    omega
  · have hbytes : [data offset, data (offset + 1)] = toLE 2 n := h
    have hvalue : CLib.readInt16T (data offset) (data (offset + 1)) = n := by
      rw [CLib.readInt16T_eq, hbytes, fromLE_toLE, Nat.mod_eq_of_lt (by omega), int16_natCast hn]
    rw [readInt16At, hvalue]
    exact (returns_emit _).bind (returns_pure _)

theorem strncpyReads_range (data : Memory UInt8) (offset n : Nat) :
    ∀ i ∈ strncpyReads data offset n, offset ≤ i ∧ i < offset + n := by
  induction n generalizing offset with
  | zero => simp [strncpyReads]
  | succ n ih =>
      intro i hi
      rw [strncpyReads, List.mem_cons] at hi
      rcases hi with rfl | hi
      · omega
      · split at hi
        · simp at hi
        · have := ih (offset + 1) i hi
          omega

theorem readStringMalloc_holds {data : Memory UInt8} {offset : Nat} {s : List UInt8}
    (h : data.Holds offset (encodeString s)) (hs : s.length ≤ 32767) :
    ReadsReturn (readStringMalloc data offset) offset (offset + (2 + s.length))
      ⟨s.length, cString s⟩ := by
  obtain ⟨hlen, hbytes⟩ := Memory.holds_append.mp h
  rw [toLE_length] at hbytes
  refine (readInt16At_holds hlen hs).bind ?_ (by omega) (by omega)
  rw [if_neg (by omega), Int.toNat_natCast]
  dsimp only
  rw [show data.load (offset + 2) s.length = s from hbytes]
  refine ReadsReturn.bind ⟨_, ?_, returns_emit _⟩ (readsReturn_pure _ _) (by omega) (Nat.le_refl _)
  intro i hi
  have := strncpyReads_range data (offset + 2) s.length i hi
  omega

theorem readItems_holds {data : Memory UInt8} {base dataLength startIndex : Nat}
    {items : List (List UInt8)} {offset : Nat} (front back : List Word)
    (h : data.Holds (base + offset) (items.map encodeString).flatten)
    (hitems : ∀ s ∈ items, s.length ≤ 32767)
    (hinside : offset + ((items.map encodeString).flatten).length ≤ dataLength)
    {counter : Nat} (hfront : front.length = counter + startIndex) :
    ReadsReturn
      (readItems data base dataLength startIndex items.length counter offset
        (front ++ List.replicate items.length .uninit ++ back))
      (base + offset) (base + offset + ((items.map encodeString).flatten).length)
      ⟨false, counter + items.length, offset + ((items.map encodeString).flatten).length,
        front ++ (items.map fun s => .str (cString s)) ++ back⟩ := by
  induction items generalizing offset front counter with
  | nil => simpa [readItems] using readsReturn_pure _ _
  | cons s rest ih =>
      obtain ⟨hhead, htail⟩ := Memory.holds_append.mp (show data.Holds (base + offset)
        (encodeString s ++ (rest.map encodeString).flatten) from h)
      rw [List.map_cons, List.flatten_cons, List.length_append, encodeString_length] at hinside ⊢
      rw [encodeString_length] at htail
      have hs : s.length ≤ 32767 := hitems s List.mem_cons_self
      rw [List.length_cons, readItems, if_neg (by omega)]
      refine (readStringMalloc_holds hhead hs).bind ?_ (by omega) (by omega)
      -- the word behind `front` receives the string, and moves over to it
      have hset : (front ++ List.replicate (rest.length + 1) Word.uninit ++ back).set
          (counter + startIndex) (.str (cString s)) =
          (front ++ [.str (cString s)]) ++ List.replicate rest.length .uninit ++ back := by
        rw [List.replicate_succ, List.append_assoc, ← hfront]
        simp
      have hbase : base + offset + (2 + s.length) = base + (offset + 2 + s.length) := by omega
      rw [hbase] at htail
      have hlen : (front ++ [Word.str (cString s)]).length = counter + 1 + startIndex := by
        rw [List.length_append, hfront, List.length_singleton]
        omega
      have hrest := ih (front ++ [.str (cString s)]) htail
        (fun t ht => hitems t (List.mem_cons_of_mem _ ht)) (by omega) hlen
      show ReadsReturn (readItems data base dataLength startIndex rest.length (counter + 1)
        (offset + 2 + s.length) _) _ _ _
      have hhi : base + offset + (2 + s.length + ((rest.map encodeString).flatten).length) =
          base + (offset + 2 + s.length) + ((rest.map encodeString).flatten).length := by omega
      have hoff : offset + (2 + s.length + ((rest.map encodeString).flatten).length) =
          offset + 2 + s.length + ((rest.map encodeString).flatten).length := by omega
      have hcount : counter + (rest.length + 1) = counter + 1 + rest.length := by omega
      have hwords : front ++ (s :: rest).map (fun s => Word.str (cString s)) ++ back =
          (front ++ [.str (cString s)]) ++ rest.map (fun s => Word.str (cString s)) ++ back := by
        simp
      rw [hset, hbase, hhi, hoff, hcount, hwords]
      exact hrest

theorem readStringList_holds {data : Memory UInt8} {base : Nat} (dataLength : Nat)
    {items : List (List UInt8)} (freshNull : Nat → Bool) (v : ListVar) (list : ListPtr)
    (readBytes k : Nat) (h : data.Holds base (encodeList items)) (hcount : items.length ≤ 32767)
    (hitems : ∀ s ∈ items, s.length ≤ 32767) (hinside : (encodeList items).length ≤ dataLength) :
    ReadsReturn (readStringList freshNull v list readBytes data base dataLength k k)
      base (base + (encodeList items).length)
      ⟨items.length, (encodeList items).length, .live (stringWords k items)⟩ := by
  obtain ⟨hlen, hbytes⟩ := Memory.holds_append.mp h
  rw [toLE_length] at hbytes
  rw [encodeList_length] at hinside ⊢
  rw [readStringList, if_neg (Nat.lt_irrefl k)]
  refine (readInt16At_holds hlen hcount).bind ?_ (by omega) (by omega)
  rw [if_neg (by omega)]
  dsimp only
  have hlast : ((items.length : Int) + k).toNat = k + items.length := by omega
  have hwords : (List.replicate (k + items.length + 1) Word.uninit).set (k + items.length) .null =
      List.replicate k .uninit ++ List.replicate items.length .uninit ++ [.null] := by
    rw [List.replicate_succ', ← List.replicate_add]
    simp
  rw [hlast, hwords, Int.toNat_natCast]
  refine (readItems_holds (List.replicate k .uninit) [.null] hbytes hitems hinside
    (by simp)).bind ?_ (by omega) (by omega)
  rw [if_neg (by simp)]
  have hhi : base + (2 + ((items.map encodeString).flatten).length) =
      base + 2 + ((items.map encodeString).flatten).length := by omega
  rw [hhi]
  exact readsReturn_pure _ _

/-! ## The response and the exit -/

theorem writeString_natCast {size n : Nat} (hsize : n + 2 ≤ size) (buffer : List UInt8) :
    CLib.writeString size buffer n = some ((n : Int), toLE 2 n ++ buffer.take n) := by
  simp only [CLib.writeString]
  rw [if_neg (by omega), if_neg (by omega), if_neg (by omega), CLib.writeInt16T_natCast,
    Int.toNat_natCast]

/-- `<length int16><name><pid int32><status int32>`. -/
theorem statusResponse_eq (fresh : Memory UInt8) {buffer : List UInt8} {n : Nat}
    (hn : n ≤ buffer.length) (pid spawnResult : Int) :
    statusResponse fresh buffer n pid spawnResult =
      some (encodeString (buffer.take n) ++ (CLib.writeInt32T (if spawnResult ≠ 0 then 0 else pid) ++
        CLib.writeInt32T spawnResult)) := by
  have htake : (buffer.take n).length = n := by simp [hn]
  have hencode : toLE 2 n ++ buffer.take n = encodeString (buffer.take n) := by
    rw [encodeString, htake]
  have hlen : (encodeString (buffer.take n)).length = 2 + n := by rw [encodeString_length, htake]
  generalize hpid : (if spawnResult ≠ 0 then 0 else pid) = pidField
  simp only [statusResponse, hpid]
  rw [writeString_natCast (by omega), hencode]
  show some (Memory.load _ 0 _) = _
  generalize encodeString (buffer.take n) = front at hlen ⊢
  have hpidField : (n + 2) = 0 + front.length := by omega
  have hstatus : (n + 2 + 4) = 0 + (front ++ CLib.writeInt32T pidField).length := by
    rw [List.length_append, CLib.writeInt32T_length]
    omega
  have hall := Memory.holds_store_append (Memory.holds_store_append
    (Memory.holds_store_self fresh 0 front) (CLib.writeInt32T pidField))
      (CLib.writeInt32T spawnResult)
  rw [← hstatus, ← hpidField, Memory.Holds, List.length_append, List.length_append,
    CLib.writeInt32T_length, CLib.writeInt32T_length,
    show front.length + 4 + 4 = 2 + n + 2 * 4 by omega] at hall
  rw [hall, List.append_assoc]

theorem walkList_returns (items : List (List UInt8)) :
    (walkList ((items.map fun s => .str (cString s)) ++ [.null])).Returns [] () := by
  induction items with
  | nil => exact returns_pure ()
  | cons s rest ih => exact ih

/-- The exit frees a complete list. -/
theorem exitFree_returns (v : ListVar) {words : List Word} (h : (walkList words).Returns [] ()) :
    (exitFree v (some (.live words))).Returns [.use v, .use v, .free v] () :=
  (returns_emit [ExecEvent.use v]).bind
    ((returns_emit [ExecEvent.use v]).bind (h.bind (returns_emit [ExecEvent.free v])))

theorem setFirst_returns (v : ListVar) (items : List (List UInt8)) (buffer : List UInt8) :
    (setFirst v (.live (stringWords 1 items)) buffer).Returns [.use v]
      (.live (.str buffer :: stringWords 0 items)) :=
  rfl

/-- What the handler does behind the two lists. -/
def spawnEvents (call : SpawnCall) (response : List UInt8) (length : Int) : List ExecEvent :=
  [.spawn call, .use .spawnArgv, .use .spawnEnvp, .send rexs response length,
    .use .spawnArgv, .use .spawnArgv, .free .spawnArgv,
    .use .spawnEnvp, .use .spawnEnvp, .free .spawnEnvp]

/-- The call of `posix_spawn` that an EXEC payload asks for. -/
def ExecEncoding.call (c : ExecEncoding) : SpawnCall where
  programName := cString c.name
  path := cString c.path
  argv := .live (.str (CLib.strdup (cString c.path)) :: stringWords 0 c.args)
  envp := .live (stringWords 0 c.env)

/-- The response to it. -/
def ExecEncoding.response (c : ExecEncoding) (world : SpawnWorld) : List UInt8 :=
  encodeString ((cString c.name).take c.name.length) ++
    (CLib.writeInt32T (if world.spawnResult ≠ 0 then 0 else world.pid) ++
      CLib.writeInt32T world.spawnResult)

theorem cString_length (s : List UInt8) : (cString s).length = s.length + 1 := by
  have htext : ((s.take s.length).takeWhile (· ≠ 0)).length ≤ s.length := by
    rw [List.take_length]
    exact (List.takeWhile_prefix _).length_le
  simp only [cString, CLib.strncpy, List.length_append, List.length_replicate, List.length_cons,
    List.length_nil]
  omega

/-- On a payload that begins with a complete encoding the handler reads bytes of
the encoding only, starts the program and frees both lists. -/
theorem handlerExec_returns (world : SpawnWorld) {data : Memory UInt8} {dataLength : Nat}
    (c : ExecEncoding) (hc : c.bytes <+: data.load 0 dataLength) :
    ∃ header args env : List Nat, (∀ i ∈ header ++ args ++ env, i < dataLength) ∧
      (handlerExec world data dataLength).Returns
        (header.map .read ++ ([.assign .spawnArgv] ++ (args.map .read ++
          ([.use .spawnArgv] ++ ([.assign .spawnEnvp] ++ (env.map .read ++
            spawnEvents c.call (c.response world)
              (CLib.int16 (2 + c.name.length + 2 * 4)))))))) () := by
  obtain ⟨hholds, hlength⟩ := Memory.holds_of_prefix hc
  obtain ⟨hname, hholds⟩ := Memory.holds_append.mp hholds
  obtain ⟨hpath, hholds⟩ := Memory.holds_append.mp hholds
  obtain ⟨hargs, henv⟩ := Memory.holds_append.mp hholds
  simp only [encodeString_length, Nat.zero_add] at hpath hargs henv
  rw [ExecEncoding.bytes] at hlength
  simp only [List.length_append, encodeString_length] at hlength
  have hargsLen := encodeList_length c.args
  have henvLen := encodeList_length c.env
  obtain ⟨readsName, hreadsName, hname⟩ := readStringMalloc_holds hname c.name_le
  obtain ⟨readsPath, hreadsPath, hpath⟩ := readStringMalloc_holds hpath c.path_le
  obtain ⟨readsArgs, hreadsArgs, hargs⟩ := readStringList_holds
    (dataLength - (2 + c.name.length + (2 + c.path.length))) world.freshNull .spawnArgv .null 0 1
    hargs c.args_le c.arg_le (by omega)
  obtain ⟨readsEnv, hreadsEnv, henv⟩ := readStringList_holds
    (dataLength - (2 + c.name.length + (2 + c.path.length) + (encodeList c.args).length))
    world.freshNull .spawnEnvp .null (encodeList c.args).length 0 henv c.env_le c.item_le (by omega)
  refine ⟨readsName ++ readsPath, readsArgs, readsEnv, ?_, ?_⟩
  · intro i hi
    simp only [List.mem_append] at hi
    rcases hi with ((hi | hi) | hi) | hi
    · have := hreadsName i hi
      omega
    · have := hreadsPath i hi
      omega
    · have := hreadsArgs i hi
      omega
    · have := hreadsEnv i hi
      omega
  · rw [List.map_append, List.append_assoc, handlerExec, if_neg (by omega)]
    refine hname.bind ?_
    dsimp only
    rw [if_neg (by omega)]
    refine hpath.bind ?_
    dsimp only
    rw [if_neg (by omega), Nat.add_assoc (2 + c.name.length) 2 c.path.length]
    refine (returns_emit _).bind (hargs.bind ?_)
    refine (setFirst_returns _ _ _).bind ?_
    dsimp only
    rw [if_neg (by omega), if_neg (by omega)]
    refine (returns_emit _).bind (henv.bind ?_)
    dsimp only
    rw [if_neg (by omega)]
    refine (show (posixSpawn c.call).Returns [.spawn c.call, .use .spawnArgv, .use .spawnEnvp] ()
      from rfl).bind ?_
    rw [statusResponse_eq _ (by rw [cString_length]; omega)]
    refine (returns_emit _).bind ?_
    refine (exitFree_returns _ ?_).bind (exitFree_returns _ (walkList_returns c.env))
    exact walkList_returns c.args

end InMemoryFuzzing.RemoteControl

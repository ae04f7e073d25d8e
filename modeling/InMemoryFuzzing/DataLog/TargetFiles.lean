import InMemoryFuzzing.DataLog.Loggers
import InMemoryFuzzing.Utils.Serialization

/-!
# Register files and stack frame files

`Registers` and `GDBStackFrameInfo` are the typed objects that the fuzzer writes to files and the
analyzers read. A register is an `AutoStreamSerializable`; the other two write the number of
their elements, and the elements behind it.

Names are what can go wrong: the encoding of a name has to have fewer than 2^31 bytes.
-/

namespace InMemoryFuzzing.DataLog

open Base Platform DotNet Utils Serialization Analyzers CoreDump

/-! ## `Register` -/

/-- The fields of a `Register`; the name may be null. -/
structure RegisterFields where
  num : UInt32
  name : Option String
  size : UInt32
  deriving DecidableEq, Repr

namespace RegisterFields

/-- `_num`. -/
def numField : FieldInfo RegisterFields := ⟨some 0, .uint, num, fun r v => { r with num := v }⟩

/-- `_name`. -/
def nameField : FieldInfo RegisterFields := ⟨some 1, .string, name, fun r v => { r with name := v }⟩

/-- `_size`. -/
def sizeField : FieldInfo RegisterFields := ⟨some 2, .uint, size, fun r v => { r with size := v }⟩

/-- The fields of the class, in the order of their ordinals. -/
def fields : List (FieldInfo RegisterFields) := [numField, nameField, sizeField]

/-- Before the constructor has read them. -/
def unread : RegisterFields := ⟨0, none, 0⟩

end RegisterFields

/-! ## `GDBStackFrameInfo` -/

/-- A dictionary without entries. -/
def noSavedRegisters : StackFrameInfo := ⟨[], .nil⟩

/-- `_savedRegisters.Add`. -/
def addSavedRegister (id : Option String) (address : Option UInt64) (info : StackFrameInfo) :
    Except NetException StackFrameInfo :=
  match id with
  | none => .error (.argument "Argument cannot be null.")
  | some name =>
      if h : name ∈ info.savedRegisters.map Prod.fst then .error .duplicateKey
      else .ok ⟨info.savedRegisters ++ [(name, address)], by
        rw [List.map_append, List.nodup_append]
        refine ⟨info.nodup, List.pairwise_singleton .., ?_⟩
        rintro a ha b hb rfl
        obtain rfl : a = name := List.mem_singleton.mp hb
        exact h ha⟩

/-- A pair in `GDBStackFrameInfo.Write`. -/
def writeSavedRegister (pair : String × Option UInt64) : StreamHelper.Write :=
  (StreamHelper.writeString (some pair.1)).andThen <| .ok <|
    match pair.2 with
    | none => writeBool false
    | some address => writeBool true ++ writeUInt64 address

/-- A pass through the loop of `GDBStackFrameInfo.Read`. -/
def readSavedRegister (info : StackFrameInfo) : Reader NetException UInt8 StackFrameInfo := fun src => do
  let (id, src) ← StreamHelper.readString src
  let (hasValue, src) ← StreamHelper.readBool src
  let (address, src) ← if hasValue then mapRead some readUInt64 src else .ok (none, src)
  let info ← addSavedRegister id address info
  return (info, src)

/-! ## Typed objects -/

/-- The classes that are read from files of their own. -/
inductive TypedClass
  | registers
  | gdbStackFrameInfo
  deriving DecidableEq, Repr

/-- The identifier in the attribute of the class. -/
def TypedClass.identifier : TypedClass → String
  | .registers => "registers"
  | .gdbStackFrameInfo => "gdb_stack_frame_info"

inductive TypedObject
  | registers (registers : List RegisterFields)
  | gdbStackFrameInfo (info : StackFrameInfo)

def TypedObject.typedClass : TypedObject → TypedClass
  | .registers _ => .registers
  | .gdbStackFrameInfo _ => .gdbStackFrameInfo

section

-- the fields of `Register`, as reflection yields them
variable (reflected : List (FieldInfo RegisterFields))

/-- `Registers.Write`. -/
def registersWrite (registers : List RegisterFields) : StreamHelper.Write :=
  (Written.ok (writeInt32 registers.length)).andThen (.each (autoWrite reflected) registers)

/-- `Registers.Read`. -/
def registersRead : Reader NetException UInt8 (List RegisterFields) := fun src => do
  let (count, src) ← readInt32 src
  readTimes (autoRead reflected RegisterFields.unread) count.toNat src

/-- `GDBStackFrameInfo.Write`. -/
def gdbStackFrameInfoWrite (info : StackFrameInfo) : StreamHelper.Write :=
  (Written.ok (writeInt32 info.savedRegisters.length)).andThen
    (.each writeSavedRegister info.savedRegisters)

/-- `GDBStackFrameInfo.Read`. -/
def gdbStackFrameInfoRead : Reader NetException UInt8 StackFrameInfo := fun src => do
  let (count, src) ← readInt32 src
  readLoop readSavedRegister count.toNat noSavedRegisters src

def TypedObject.write : TypedObject → StreamHelper.Write
  | .registers list => registersWrite reflected list
  | .gdbStackFrameInfo info => gdbStackFrameInfoWrite info

/-- The constructor of the class with a stream. -/
def TypedClass.ctor : TypedClass → Reader NetException UInt8 TypedObject
  | .registers => mapRead .registers (registersRead reflected)
  | .gdbStackFrameInfo => mapRead .gdbStackFrameInfo gdbStackFrameInfoRead

/-- `StreamHelper.WriteTypedStreamSerializable`. -/
def writeObject (object : TypedObject) : StreamHelper.Write :=
  Serialization.writeTypedStreamSerializable (fun o => some o.typedClass.identifier)
    (TypedObject.write reflected) (some object)

/-- `StreamHelper.ReadTypedStreamSerializable`, where reflection finds classes by `findType`. -/
def readObject (findType : String → Option TypedClass) :
    Reader NetException UInt8 (Option TypedObject) :=
  readTypedStreamSerializable fun identifier => (findType identifier).map (TypedClass.ctor reflected)

end

/-! ## Reading back -/

/-- The encoding of a name has an `int` number of bytes. -/
def NameFits (name : String) : Prop := (utf8GetBytes name).length < 2 ^ 31

/-- An object as it is in memory, with names that are not null and fit. -/
def TypedObject.Storable : TypedObject → Prop
  | .registers list =>
      list.length < 2 ^ 31 ∧ ∀ r ∈ list, ∃ name, r.name = some name ∧ NameFits name
  | .gdbStackFrameInfo info =>
      info.savedRegisters.length < 2 ^ 31 ∧ ∀ pair ∈ info.savedRegisters, NameFits pair.1

variable {reflected : List (FieldInfo RegisterFields)}

/-- The fields are written in the order of their ordinals. -/
theorem registerMembers (hreflected : reflected.Perm RegisterFields.fields) :
    getMembersToSerializeInOrder reflected = .ok RegisterFields.fields := by
  have hsorted : (RegisterFields.fields.filterMap withOrdinal).Pairwise fun a b => a.1 < b.1 := by
    simp [RegisterFields.fields, withOrdinal, RegisterFields.numField, RegisterFields.nameField,
      RegisterFields.sizeField]
  rw [getMembersToSerializeInOrder_perm hreflected hsorted]
  simp [RegisterFields.fields, withOrdinal, RegisterFields.numField, RegisterFields.nameField,
    RegisterFields.sizeField]

theorem reads_register (hreflected : reflected.Perm RegisterFields.fields) {r : RegisterFields}
    {name : String} (hname : r.name = some name) (hfits : NameFits name) :
    (autoWrite reflected r).raised = none ∧
      Reads (autoRead reflected RegisterFields.unread) (autoWrite reflected r).items r := by
  refine reads_auto (registerMembers hreflected) ?_ rfl
  intro member hmember
  simp only [RegisterFields.fields, List.mem_cons, List.not_mem_nil, or_false] at hmember
  rcases hmember with rfl | rfl | rfl
  · trivial
  · exact ⟨name, hname, hfits⟩
  · trivial

/-- The number of elements is read back. -/
theorem reads_count {n : Nat} (h : n < 2 ^ 31) : Reads readInt32 (writeInt32 n) (n : Int) :=
  StreamHelper.reads_int32 (by omega) (by omega)

theorem reads_registers (hreflected : reflected.Perm RegisterFields.fields)
    {registers : List RegisterFields} (hcount : registers.length < 2 ^ 31)
    (hnames : ∀ r ∈ registers, ∃ name, r.name = some name ∧ NameFits name) :
    (registersWrite reflected registers).raised = none ∧
      Reads (registersRead reflected) (registersWrite reflected registers).items registers := by
  have hregister : ∀ r ∈ registers, (autoWrite reflected r).raised = none ∧
      Reads (autoRead reflected RegisterFields.unread) (autoWrite reflected r).items r := by
    intro r hr
    obtain ⟨name, hname, hfits⟩ := hnames r hr
    exact reads_register hreflected hname hfits
  have hraised := fun r hr => (hregister r hr).1
  have hloop := Written.each_raised.mpr hraised
  refine ⟨hloop, ?_⟩
  rw [registersWrite, Written.ok_andThen, Written.each_items hraised]
  intro rest
  rw [registersRead, List.append_assoc, reads_count hcount, ok_bind]
  exact Reads.times (fun r hr => (hregister r hr).2) rest

theorem writeSavedRegister_ok {pair : String × Option UInt64} (h : NameFits pair.1) :
    writeSavedRegister pair = .ok (writeString pair.1 ++
      match pair.2 with
      | none => writeBool false
      | some address => writeBool true ++ writeUInt64 address) := by
  rw [writeSavedRegister, StreamHelper.writeString_some h, StreamHelper.writeString_eq]
  rfl

theorem reads_savedRegister {info : StackFrameInfo} {pair : String × Option UInt64}
    (h : NameFits pair.1) {added : StackFrameInfo}
    (hadded : addSavedRegister (some pair.1) pair.2 info = .ok added) :
    Reads (readSavedRegister info) (writeSavedRegister pair).items added := by
  intro rest
  rw [writeSavedRegister_ok h, readSavedRegister]
  show (StreamHelper.readString (writeString pair.1 ++ _ ++ rest) >>= _) = _
  rw [List.append_assoc, StreamHelper.writeString_eq, StreamHelper.reads_string h, ok_bind]
  dsimp only
  cases haddress : pair.2 with
  | none =>
      rw [haddress] at hadded
      rw [StreamHelper.reads_bool false, ok_bind]
      dsimp only
      rw [if_neg (by simp), ok_bind]
      dsimp only
      rw [hadded]
      rfl
  | some address =>
      rw [haddress] at hadded
      have hread : Reads readUInt64 (writeUInt64 address) address := readUInt64_writeUInt64 address
      dsimp only
      rw [List.append_assoc, StreamHelper.reads_bool true, ok_bind]
      dsimp only
      rw [if_pos rfl, hread.map some, ok_bind]
      dsimp only
      rw [hadded]
      rfl

/-- The dictionary with one more entry. -/
def withEntry (info : StackFrameInfo) (pair : String × Option UInt64) : StackFrameInfo :=
  match addSavedRegister (some pair.1) pair.2 info with
  | .ok added => added
  | .error _ => info

theorem addSavedRegister_new {info : StackFrameInfo} {pair : String × Option UInt64}
    (h : pair.1 ∉ info.savedRegisters.map Prod.fst) :
    addSavedRegister (some pair.1) pair.2 info = .ok (withEntry info pair) ∧
      (withEntry info pair).savedRegisters = info.savedRegisters ++ [pair] := by
  simp only [withEntry, addSavedRegister, dif_neg h, Prod.mk.eta, and_self]

/-- Entries with different names are added one behind the other. -/
theorem foldl_withEntry (info : StackFrameInfo) {pairs : List (String × Option UInt64)}
    (h : ((info.savedRegisters ++ pairs).map Prod.fst).Nodup) :
    (pairs.foldl withEntry info).savedRegisters = info.savedRegisters ++ pairs := by
  induction pairs generalizing info with
  | nil => simp
  | cons pair pairs ih =>
      have hnew : pair.1 ∉ info.savedRegisters.map Prod.fst := by
        rw [List.map_append, List.map_cons, List.nodup_append] at h
        exact fun hmem => h.2.2 _ hmem _ List.mem_cons_self rfl
      have hadded := (addSavedRegister_new hnew).2
      rw [List.foldl_cons, ih, hadded, List.append_assoc]
      · rfl
      · rw [hadded, List.append_assoc]
        exact h

theorem reads_stackFrameInfo {info : StackFrameInfo} (hcount : info.savedRegisters.length < 2 ^ 31)
    (hnames : ∀ pair ∈ info.savedRegisters, NameFits pair.1) :
    (gdbStackFrameInfoWrite info).raised = none ∧
      Reads gdbStackFrameInfoRead (gdbStackFrameInfoWrite info).items info := by
  have hraised : ∀ pair ∈ info.savedRegisters, (writeSavedRegister pair).raised = none := by
    intro pair hpair
    rw [writeSavedRegister_ok (hnames pair hpair)]
    rfl
  refine ⟨Written.each_raised.mpr hraised, ?_⟩
  rw [gdbStackFrameInfoWrite, Written.ok_andThen, Written.each_items hraised]
  have hall : info.savedRegisters.foldl withEntry noSavedRegisters = info := by
    have hentries := foldl_withEntry noSavedRegisters info.nodup
    cases hfold : info.savedRegisters.foldl withEntry noSavedRegisters with
    | mk entries nodup =>
        rw [hfold] at hentries
        obtain rfl : entries = info.savedRegisters := hentries
        rfl
  intro rest
  rw [gdbStackFrameInfoRead, List.append_assoc, reads_count hcount, ok_bind]
  dsimp only
  rw [Int.toNat_natCast]
  have hloop : Reads (readLoop readSavedRegister info.savedRegisters.length noSavedRegisters)
      (info.savedRegisters.flatMap fun pair => (writeSavedRegister pair).items)
      (info.savedRegisters.foldl withEntry noSavedRegisters) := by
    refine Reads.loop withEntry noSavedRegisters ?_
    intro front pair back hsplit
    have hnodup := info.nodup
    rw [hsplit, List.map_append, List.map_cons, List.nodup_append] at hnodup
    -- the entries in front of a pair are in the dictionary, and no other
    have hentries : (front.foldl withEntry noSavedRegisters).savedRegisters = front :=
      foldl_withEntry noSavedRegisters hnodup.1
    have hnew : pair.1 ∉ (front.foldl withEntry noSavedRegisters).savedRegisters.map Prod.fst := by
      rw [hentries]
      exact fun hmem => hnodup.2.2 _ hmem _ List.mem_cons_self rfl
    have hpair : pair ∈ info.savedRegisters := by simp [hsplit]
    exact reads_savedRegister (hnames pair hpair) (addSavedRegister_new hnew).1
  rw [hall] at hloop
  exact hloop rest

/-- What the loggers write is what `GDBStackFrameInfo.Write` writes. -/
theorem gdbStackFrameInfoWrite_eq {info : StackFrameInfo}
    (hnames : ∀ pair ∈ info.savedRegisters, NameFits pair.1) :
    gdbStackFrameInfoWrite info = .ok (stackFrameInfoWrite info) := by
  rw [gdbStackFrameInfoWrite, Written.each_ok fun pair hpair => writeSavedRegister_ok (hnames pair hpair)]
  rfl

/-! ## Objects -/

/-- The object is written without an exception, and read back with as many bytes as have been
written, whatever stands behind them. -/
def ReadBack (reflected : List (FieldInfo RegisterFields)) (findType : String → Option TypedClass)
    (object : TypedObject) : Prop :=
  ∃ bytes, writeObject reflected object = .ok bytes ∧
    ∀ rest, readObject reflected findType (bytes ++ rest) = .ok (some object, rest)

theorem identifier_fits (c : TypedClass) : NameFits c.identifier := by
  rw [NameFits, utf8GetBytes_length]
  cases c with
  | registers => decide
  | gdbStackFrameInfo => decide

/-- The constructor of its class reads what an object has written. -/
theorem reads_object (hreflected : reflected.Perm RegisterFields.fields) {object : TypedObject}
    (hobject : object.Storable) : (object.write reflected).raised = none ∧
      Reads (object.typedClass.ctor reflected) (object.write reflected).items object := by
  cases object with
  | registers list =>
      obtain ⟨hraised, hread⟩ := reads_registers hreflected hobject.1 hobject.2
      exact ⟨hraised, hread.map _⟩
  | gdbStackFrameInfo info =>
      obtain ⟨hraised, hread⟩ := reads_stackFrameInfo hobject.1 hobject.2
      exact ⟨hraised, hread.map _⟩

/-- Behind the flag and the identifier stands what the object has written. -/
theorem writeObject_eq {object : TypedObject} (h : (object.write reflected).raised = none) :
    writeObject reflected object =
      .ok (Utils.writeTypedStreamSerializable object.typedClass.identifier
        (object.write reflected).items) := by
  have hidentifier := StreamHelper.writeString_some (identifier_fits object.typedClass)
  rw [← StreamHelper.writeString_eq] at hidentifier
  show (Written.ok (writeBool true)).andThen ((StreamHelper.writeString
    (some object.typedClass.identifier)).andThen (object.write reflected)) = _
  rw [hidentifier, Written.eq_ok h, Written.ok_andThen_ok, Written.ok_andThen_ok,
    ← List.append_assoc]
  rfl

/-- The class is found under the identifier, and reads what stands behind it. -/
theorem reads_readObject {findType : String → Option TypedClass} {c : TypedClass}
    (hfind : findType c.identifier = some c) {object : TypedObject} {written : List UInt8}
    (hread : Reads (c.ctor reflected) written object) :
    Reads (readObject reflected findType)
      (Utils.writeTypedStreamSerializable c.identifier written) (some object) := by
  refine reads_readTyped (identifier_fits c) ?_ hread
  rw [hfind, Option.map_some]

/-- **Register files and stack frame files are read back.** Whatever the order in which
reflection yields the fields, registers with names, and the addresses of saved registers, are
read back exactly. -/
theorem target_objects_read_back (hreflected : reflected.Perm RegisterFields.fields)
    {findType : String → Option TypedClass} (hfind : ∀ c, findType c.identifier = some c)
    {object : TypedObject} (hobject : object.Storable) : ReadBack reflected findType object := by
  obtain ⟨hraised, hread⟩ := reads_object hreflected hobject
  exact ⟨_, writeObject_eq hraised, reads_readObject (hfind _) hread⟩

/-- The two classes, as reflection finds them. -/
def findTypedClass (identifier : String) : Option TypedClass :=
  [.registers, .gdbStackFrameInfo].find? fun c => c.identifier = identifier

theorem findTypedClass_identifier (c : TypedClass) : findTypedClass c.identifier = some c := by
  cases c with
  | registers => simp [findTypedClass]
  | gdbStackFrameInfo => simp [findTypedClass, TypedClass.identifier]

def ripAndRsp : List RegisterFields := [⟨16, some "rip", 8⟩, ⟨7, some "rsp", 8⟩]

def savedRipAndRbp : StackFrameInfo := ⟨[("rip", some 0x7ffe0018), ("rbp", some 0x7ffe0010)], by decide⟩

/-- A register file and a stack frame file are read back. -/
theorem target_objects_read_back_rip :
    ReadBack RegisterFields.fields findTypedClass (.registers ripAndRsp) ∧
    ReadBack RegisterFields.fields findTypedClass (.gdbStackFrameInfo savedRipAndRbp) := by
  have hfits : ∀ name ∈ ["rip", "rsp", "rbp"], NameFits name := by
    simp only [NameFits, utf8GetBytes_length]
    decide
  refine ⟨target_objects_read_back (List.Perm.refl _) findTypedClass_identifier ⟨by decide, ?_⟩,
    target_objects_read_back (List.Perm.refl _) findTypedClass_identifier ⟨by decide, ?_⟩⟩
  · intro r hr
    rcases List.mem_pair.mp hr with rfl | rfl
    · exact ⟨"rip", rfl, hfits _ (by simp)⟩
    · exact ⟨"rsp", rfl, hfits _ (by simp)⟩
  · intro pair hpair
    rcases List.mem_pair.mp hpair with rfl | rfl <;> exact hfits _ (by simp)

/-- Registers that are read back have names that fit. -/
theorem nameFits_of_readBack (hreflected : reflected.Perm RegisterFields.fields)
    {findType : String → Option TypedClass} {registers : List RegisterFields}
    (h : ReadBack reflected findType (.registers registers)) :
    ∀ r ∈ registers, ∃ name, r.name = some name ∧ NameFits name := by
  intro r hr
  obtain ⟨bytes, hwrite, -⟩ := h
  have hraised : (writeObject reflected (.registers registers)).raised = none := by
    rw [hwrite]
    rfl
  have hbody := (Written.andThen_raised.mp (Written.andThen_raised.mp hraised).2).2
  have hregister : (autoWrite reflected r).raised = none :=
    Written.each_raised.mp (Written.andThen_raised.mp hbody).2 r hr
  rw [autoWrite, registerMembers hreflected] at hregister
  exact StreamHelper.writeString_raised.mp
    (Written.each_raised.mp hregister RegisterFields.nameField (by simp [RegisterFields.fields]))

/-- A name of characters of three bytes each. -/
def euroSigns (n : Nat) : String := String.ofList (List.replicate n '\u20AC')

theorem utf8GetBytes_euroSigns (n : Nat) : (utf8GetBytes (euroSigns n)).length = n * 3 := by
  have hsize : '\u20AC'.utf8Size = 3 := by decide
  rw [euroSigns, utf8GetBytes_replicate_length, hsize]

/-- A register with a name that does not fit. -/
theorem not_readBack_of_name {r : RegisterFields} {name : String} (hname : r.name = some name)
    (h : ¬ NameFits name) :
    ¬ ReadBack RegisterFields.fields findTypedClass (.registers [r]) := by
  intro hread
  obtain ⟨written, hwritten, hfits⟩ :=
    nameFits_of_readBack (List.Perm.refl _) hread r List.mem_cons_self
  rw [hname] at hwritten
  obtain rfl : name = written := Option.some.inj hwritten
  exact h hfits

/-- `WriteString` raises on a name whose encoding has no `int` number of bytes. -/
theorem long_name_not_read_back :
    ¬ ReadBack RegisterFields.fields findTypedClass
      (.registers [⟨0, some (euroSigns 715827883), 0⟩]) := by
  refine not_readBack_of_name rfl ?_
  rw [NameFits, utf8GetBytes_euroSigns]
  norm_num

/-- A fuzz run leaves a file from which the information about the stack frame is read back. -/
theorem startingFuzzRun_readBack (l : StackFrameLogger) {info : StackFrameInfo}
    (hcount : info.savedRegisters.length < 2 ^ 31)
    (hnames : ∀ pair ∈ info.savedRegisters, NameFits pair.1) (fs : FileSystem) :
    ∃ bytes, l.startingFuzzRun (some info) fs
        (StackFrameLogger.buildLogFile l.path l.runPrefix) = some bytes ∧
      readObject reflected findTypedClass bytes = .ok (some (.gdbStackFrameInfo info), []) := by
  obtain ⟨hraised, hread⟩ := reads_stackFrameInfo hcount hnames
  rw [gdbStackFrameInfoWrite_eq hnames] at hread
  have hfile : l.startingFuzzRun (some info) fs (StackFrameLogger.buildLogFile l.path l.runPrefix) =
      some (writeTypedStreamSerializable "gdb_stack_frame_info" (stackFrameInfoWrite info)) := by
    rw [StackFrameLogger.startingFuzzRun_eq]
    exact FileSystem.set_self _ _ _
  have hobject : Reads (readObject reflected findTypedClass)
      (writeTypedStreamSerializable "gdb_stack_frame_info" (stackFrameInfoWrite info))
      (some (.gdbStackFrameInfo info)) :=
    reads_readObject (findTypedClass_identifier .gdbStackFrameInfo) (hread.map _)
  refine ⟨_, hfile, ?_⟩
  rw [← hobject [], List.append_nil]

end InMemoryFuzzing.DataLog

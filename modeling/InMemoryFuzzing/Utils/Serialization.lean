import InMemoryFuzzing.Utils.StreamCodecs

/-!
# `AutoStreamSerializable` and typed objects

The fields of a class that carry a `SerializeMe` attribute are written in the order of their
ordinals; reflection yields the fields of a class in no particular order. A typed object is
written behind a flag and the identifier of its class, under which reflection finds the class
when it is read.
-/

namespace InMemoryFuzzing.Utils.Serialization

open Base Platform DotNet StreamHelper

/-! ## Fields -/

/-- The types that `AutoStreamSerializable` tells apart, as far as no other object is in them. -/
inductive FieldType
  | byte
  | byteArray
  | int
  | uint
  | ushort
  | string
  /-- Any other type. -/
  | other (name : String)
  deriving DecidableEq, Repr

/-- The values of a field. -/
def FieldType.Value : FieldType → Type
  | .byte => UInt8
  | .byteArray => Option (List UInt8)
  | .int => Int
  | .uint => UInt32
  | .ushort => UInt16
  | .string => Option String
  | .other _ => Unit

/-- `ArgumentException` for a type that is not supported. -/
def notSupported (name : String) : NetException :=
  .argument ("Type '" ++ name ++ "' is not supported by AutoStreamSerializable")

/-- The chain of conditions in `Write`. -/
def writeField : (fieldType : FieldType) → fieldType.Value → Write
  | .byte, (value : UInt8) => .ok [value]
  | .byteArray, (value : Option (List UInt8)) => .ok (writeBytesSafe value)
  | .int, (value : Int) => .ok (writeInt32 value)
  | .uint, (value : UInt32) => .ok (writeUInt32 value)
  | .ushort, (value : UInt16) => .ok (writeUInt16 value)
  | .string, (value : Option String) => StreamHelper.writeString value
  | .other name, _ => .raise (notSupported name)

/-- The chain of conditions in `Read`. -/
def readField : (fieldType : FieldType) → Reader NetException UInt8 fieldType.Value
  -- `(byte)src.ReadByte ()`, also at the end
  | .byte => fun src => .ok (UInt8.ofInt (readByte src).1, (readByte src).2)
  | .byteArray => readBytesSafe
  | .int => readInt32
  | .uint => readUInt32
  | .ushort => readUInt16
  | .string => readString
  | .other name => fun _ => .error (notSupported name)

/-- The value is written and read back. -/
def FieldType.Storable : (fieldType : FieldType) → fieldType.Value → Prop
  | .byteArray, (value : Option (List UInt8)) => ∀ bytes ∈ value, bytes.length < 2 ^ 31
  | .int, (value : Int) => -2 ^ 31 ≤ value ∧ value < 2 ^ 31
  | .string, (value : Option String) => ∃ s, value = some s ∧ (utf8GetBytes s).length < 2 ^ 31
  | .other _, _ => False
  | _, _ => True

theorem writeField_raised {fieldType : FieldType} {value : fieldType.Value}
    (h : fieldType.Storable value) : (writeField fieldType value).raised = none := by
  cases fieldType with
  | string => exact StreamHelper.writeString_raised.mpr h
  | other name => exact absurd h id
  | _ => rfl

theorem reads_field {fieldType : FieldType} {value : fieldType.Value}
    (h : fieldType.Storable value) :
    Reads (readField fieldType) (writeField fieldType value).items value := by
  cases fieldType with
  | byte =>
      intro rest
      have hcast : UInt8.ofInt (UInt8.toNat value) = value := by
        apply UInt8.toNat_inj.mp
        have hlt := UInt8.toNat_lt value
        rw [UInt8.ofInt, UInt8.toNat_ofNat']
        omega
      show Except.ok (UInt8.ofInt (UInt8.toNat value), rest) = _
      rw [hcast]
      rfl
  | byteArray => exact reads_bytesSafe h
  | int => exact reads_int32 h.1 h.2
  | uint => exact reads_uint32 value
  | ushort => exact reads_uint16 value
  | string =>
      obtain ⟨s, rfl, hsize⟩ := h
      show Reads readString (StreamHelper.writeString (some s)).items (some s)
      rw [writeString_some hsize]
      exact reads_string hsize
  | other name => exact absurd h id

/-! ## `AutoStreamSerializable` -/

/-- A field of a class as reflection shows it; the ordinal is that of its `SerializeMe`
attribute. -/
structure FieldInfo (Obj : Type) where
  ordinal : Option Int
  fieldType : FieldType
  getValue : Obj → fieldType.Value
  setValue : Obj → fieldType.Value → Obj

variable {Obj : Type}

/-- `Add` of a sorted dictionary. -/
def addMember (ordinal : Int) (member : FieldInfo Obj) :
    List (Int × FieldInfo Obj) → Except NetException (List (Int × FieldInfo Obj))
  | [] => .ok [(ordinal, member)]
  | entry :: rest =>
      if ordinal < entry.1 then .ok ((ordinal, member) :: entry :: rest)
      else if ordinal = entry.1 then .error .duplicateKey
      else (addMember ordinal member rest).map (entry :: ·)

/-- The loop of `GetMembersToSerializeInOrder`. -/
def addMembers :
    List (FieldInfo Obj) → List (Int × FieldInfo Obj) → Except NetException (List (Int × FieldInfo Obj))
  | [], members => .ok members
  | field :: fields, members =>
      match field.ordinal with
      | some ordinal => addMember ordinal field members >>= addMembers fields
      | none => addMembers fields members

/-- `GetMembersToSerializeInOrder`. -/
def getMembersToSerializeInOrder (fields : List (FieldInfo Obj)) :
    Except NetException (List (FieldInfo Obj)) :=
  (addMembers fields []).map fun members => members.map Prod.snd

/-- `AutoStreamSerializable.Write`. -/
def autoWrite (fields : List (FieldInfo Obj)) (obj : Obj) : Write :=
  match getMembersToSerializeInOrder fields with
  | .error e => .raise e
  | .ok members => .each (fun member => writeField member.fieldType (member.getValue obj)) members

/-- `AutoStreamSerializable.Read`. -/
def autoRead (fields : List (FieldInfo Obj)) (obj : Obj) : Reader NetException UInt8 Obj :=
  match getMembersToSerializeInOrder fields with
  | .error e => fun _ => .error e
  | .ok members =>
      readAll (fun member obj => mapRead (member.setValue obj) (readField member.fieldType))
        members obj

/-- A member is put at its place among those with other ordinals. -/
theorem addMember_ok {ordinal : Int} (member : FieldInfo Obj) {members : List (Int × FieldInfo Obj)}
    (hsorted : members.Pairwise fun a b => a.1 < b.1) (hnew : ∀ entry ∈ members, entry.1 ≠ ordinal) :
    ∃ added, addMember ordinal member members = .ok added ∧
      added.Perm ((ordinal, member) :: members) ∧ added.Pairwise fun a b => a.1 < b.1 := by
  induction members with
  | nil => exact ⟨_, rfl, .refl _, List.pairwise_singleton ..⟩
  | cons entry rest ih =>
      rw [List.forall_mem_cons] at hnew
      have hrest := List.pairwise_cons.mp hsorted
      by_cases hlt : ordinal < entry.1
      · refine ⟨_, by rw [addMember, if_pos hlt], .refl _, List.pairwise_cons.mpr ⟨?_, hsorted⟩⟩
        intro other hother
        rcases List.mem_cons.mp hother with rfl | hmem
        · exact hlt
        · exact Int.lt_trans hlt (hrest.1 other hmem)
      · obtain ⟨added, hadded, hperm, hpairwise⟩ := ih hrest.2 hnew.2
        refine ⟨entry :: added, ?_, (hperm.cons entry).trans (.swap ..), ?_⟩
        · rw [addMember, if_neg hlt, if_neg fun h => hnew.1 h.symm, hadded]
          rfl
        · refine List.pairwise_cons.mpr ⟨?_, hpairwise⟩
          intro other hother
          rcases List.mem_cons.mp (hperm.mem_iff.mp hother) with rfl | hmem
          · have hne := hnew.1
            show entry.1 < ordinal
            omega
          · exact hrest.1 other hmem

/-- The members with their ordinals. -/
def withOrdinal (field : FieldInfo Obj) : Option (Int × FieldInfo Obj) :=
  field.ordinal.map fun ordinal => (ordinal, field)

theorem addMembers_ok {fields : List (FieldInfo Obj)} {members : List (Int × FieldInfo Obj)}
    (hsorted : members.Pairwise fun a b => a.1 < b.1)
    (hnodup : ((members ++ fields.filterMap withOrdinal).map Prod.fst).Nodup) :
    ∃ added, addMembers fields members = .ok added ∧
      added.Perm (members ++ fields.filterMap withOrdinal) ∧
      added.Pairwise fun a b => a.1 < b.1 := by
  induction fields generalizing members with
  | nil => exact ⟨members, rfl, by simp, hsorted⟩
  | cons field fields ih =>
      cases hordinal : field.ordinal with
      | none =>
          have hskip : withOrdinal field = none := by simp [withOrdinal, hordinal]
          rw [List.filterMap_cons_none hskip] at hnodup ⊢
          obtain ⟨added, hadded, h⟩ := ih hsorted hnodup
          exact ⟨added, by rw [addMembers, hordinal]; exact hadded, h⟩
      | some ordinal =>
          have hkeep : withOrdinal field = some (ordinal, field) := by simp [withOrdinal, hordinal]
          rw [List.filterMap_cons_some hkeep] at hnodup ⊢
          have hmiddle : (members ++ (ordinal, field) :: fields.filterMap withOrdinal).Perm
              (((ordinal, field) :: members) ++ fields.filterMap withOrdinal) := List.perm_middle
          have hcons := (hmiddle.map Prod.fst).nodup_iff.mp hnodup
          have hnew : ∀ entry ∈ members, entry.1 ≠ ordinal := by
            intro entry hentry heq
            exact (List.nodup_cons.mp hcons).1
              (List.mem_map.mpr ⟨entry, List.mem_append_left _ hentry, heq⟩)
          obtain ⟨placed, hplaced, hperm, hpairwise⟩ := addMember_ok field hsorted hnew
          have hall := hperm.append_right (fields.filterMap withOrdinal)
          obtain ⟨added, hadded, haddedPerm, haddedSorted⟩ :=
            ih hpairwise ((hall.map Prod.fst).nodup_iff.mpr hcons)
          refine ⟨added, ?_, (haddedPerm.trans hall).trans hmiddle.symm, haddedSorted⟩
          rw [addMembers, hordinal]
          show (addMember ordinal field members >>= addMembers fields) = _
          rw [hplaced]
          exact hadded

/-- In whatever order reflection yields the fields, the members are those with an ordinal, in
the order of the ordinals. -/
theorem getMembersToSerializeInOrder_perm {fields members : List (FieldInfo Obj)}
    (hperm : fields.Perm members)
    (hsorted : (members.filterMap withOrdinal).Pairwise fun a b => a.1 < b.1) :
    getMembersToSerializeInOrder fields =
      .ok ((members.filterMap withOrdinal).map Prod.snd) := by
  have hfiltered := hperm.filterMap withOrdinal
  have hnodup : ((members.filterMap withOrdinal).map Prod.fst).Nodup :=
    List.pairwise_map.mpr (hsorted.imp fun h => Int.ne_of_lt h)
  have hempty : ([] : List (Int × FieldInfo Obj)).Pairwise fun a b => a.1 < b.1 := .nil
  obtain ⟨added, hadded, haddedPerm, haddedSorted⟩ :=
    addMembers_ok hempty ((hfiltered.map Prod.fst).nodup_iff.mpr hnodup)
  -- two lists with the same members in strictly increasing order are the same
  have heq : added = members.filterMap withOrdinal :=
    List.Perm.eq_of_pairwise (fun a b _ _ hab hba => absurd hab (Int.lt_asymm hba)) haddedSorted
      hsorted (haddedPerm.trans hfiltered)
  rw [getMembersToSerializeInOrder, hadded, heq]
  rfl

/-- An object all of whose members can be stored is read back, into any object that the members
determine. -/
theorem reads_auto {fields members : List (FieldInfo Obj)} {obj start : Obj}
    (hmembers : getMembersToSerializeInOrder fields = .ok members)
    (hstorable : ∀ member ∈ members, member.fieldType.Storable (member.getValue obj))
    (hcopy : members.foldl (fun o member => member.setValue o (member.getValue obj)) start = obj) :
    (autoWrite fields obj).raised = none ∧
      Reads (autoRead fields start) (autoWrite fields obj).items obj := by
  have hraised : ∀ member ∈ members,
      (writeField member.fieldType (member.getValue obj)).raised = none := fun member hmember =>
    writeField_raised (hstorable member hmember)
  rw [autoWrite, autoRead, hmembers]
  refine ⟨Written.each_raised.mpr hraised, ?_⟩
  show Reads (readAll _ members start) (Written.each _ members).items obj
  rw [Written.each_items hraised, ← hcopy]
  refine Reads.all (fun o (member : FieldInfo Obj) => member.setValue o (member.getValue obj))
    start ?_
  intro front member back hsplit
  rw [hcopy]
  have hmember : member ∈ members := by simp [hsplit]
  exact (reads_field (hstorable member hmember)).map _

/-! ## Typed objects -/

/-- `WriteTypedStreamSerializable`: `findAttribute` is the identifier of the class. -/
def writeTypedStreamSerializable (findAttribute : Obj → Option String) (write : Obj → Write) :
    Option Obj → Write
  | none => .ok (writeBool false)
  | some victim =>
      (Written.ok (writeBool true)).andThen <|
        match findAttribute victim with
        | none => .raise (.argument "TypedStreamSerializableAttribute not defined")
        | some identifier => (StreamHelper.writeString (some identifier)).andThen (write victim)

/-- `ReadTypedStreamSerializable`: `findType` is the constructor of the class with an
identifier. -/
def readTypedStreamSerializable (findType : String → Option (Reader NetException UInt8 Obj)) :
    Reader NetException UInt8 (Option Obj) := fun src => do
  let (hasValue, src) ← readBool src
  if hasValue = false then return (none, src)
  else
    let (identifier, src) ← readString src
    match identifier with
    -- `ContainsKey` of null
    | none => throw (.argument "Argument cannot be null.")
    | some identifier =>
        match findType identifier with
        | some ctor => mapRead some ctor src
        | none => throw (.argument
            ("Could not find TypedStreamSerializable-Type with identifier=" ++ identifier))

/-- A typed object is read by the constructor of its class. -/
theorem reads_readTyped {findType : String → Option (Reader NetException UInt8 Obj)} {victim : Obj}
    {identifier : String} {written : List UInt8} {ctor : Reader NetException UInt8 Obj}
    (hidentifier : (utf8GetBytes identifier).length < 2 ^ 31)
    (hfind : findType identifier = some ctor) (hread : Reads ctor written victim) :
    Reads (readTypedStreamSerializable findType)
      (Utils.writeTypedStreamSerializable identifier written) (some victim) := by
  intro rest
  rw [readTypedStreamSerializable, Utils.writeTypedStreamSerializable, writeString_eq]
  simp only [List.append_assoc]
  rw [reads_bool true, ok_bind]
  dsimp only
  have hstring := reads_string hidentifier (written ++ rest)
  rw [List.append_assoc] at hstring
  rw [if_neg (by simp), hstring, ok_bind]
  dsimp only
  rw [hfind]
  exact hread.map some rest

end InMemoryFuzzing.Utils.Serialization

import InMemoryFuzzing.CoreDump.RecordSection
import InMemoryFuzzing.Utils.Theorems.ByteHelper

/-!
# The grammar of a record log

What `Read` accepts, as data. An `Item` is a record or a stray byte (a type byte
the `switch` has no case for); `Item.encode` is its bytes and `Item.apply` its
effect on the instructions. Each reader has a completeness lemma (on an encoding
it returns the effect) and a soundness lemma (what it consumed is an encoding),
and `readSection_ok_iff` joins them: `Read` returns exactly on the magic number
followed by encoded items, with what the items assemble to.

The encoding is a prefix code (`Item.encode_append_inj`), so a log is the
encoding of at most one list of items.
-/

namespace InMemoryFuzzing.CoreDump

open Base Platform DotNet Utils

/-! ## Records -/

/-- A register or a memory entry. -/
inductive Change
  | register (regnum : UInt32) (value : List UInt8)
  | memory (address : UInt64) (value : List UInt8)
  deriving DecidableEq

/-- An entry of the log. -/
inductive Record
  | change (c : Change)
  | ending (signal count : Int32)
  deriving DecidableEq

/-- What one pass of the loop consumes. -/
inductive Item
  | record (r : Record)
  | stray (b : UInt8)
  deriving DecidableEq

/-- The bytes a change stores. -/
def Change.value : Change → List UInt8
  | .register _ value => value
  | .memory _ value => value

/-- The gdb encoding of a change. -/
def Change.encode : Change → List UInt8
  | .register regnum value => 1 :: (toBE 4 regnum.toNat ++ value)
  | .memory address value => 2 :: (toBE 4 value.length ++ (toBE 8 address.toNat ++ value))

def Record.encode : Record → List UInt8
  | .change c => c.encode
  | .ending signal count =>
      0 :: (toBE 4 signal.toUInt32.toNat ++ toBE 4 count.toUInt32.toNat)

def Item.encode : Item → List UInt8
  | .record r => r.encode
  | .stray b => [b]

/-- A complete, well-formed change: the register is known and the value has its
size, or the length of the value fits its field. -/
def Change.Wf (registers : Registers) : Change → Prop
  | .register regnum value =>
      ∃ reg, findRegisterByNum registers regnum = some reg ∧ value.length = reg.size.toNat
  | .memory _ value => value.length < 2 ^ 32

def Record.Wf (registers : Registers) : Record → Prop
  | .change c => c.Wf registers
  | .ending _ _ => True

def Item.Wf (registers : Registers) : Item → Prop
  | .record r => r.Wf registers
  | .stray b => 3 ≤ b.toNat

/-- The value fits into an array. -/
def Record.Fits : Record → Prop
  | .change c => c.value.length < 2 ^ 31
  | .ending _ _ => True

def Item.Fits : Item → Prop
  | .record r => r.Fits
  | .stray _ => True

/-! ## What the records mean -/

/-- Add a change to an instruction. -/
def InstructionDescription.add (i : InstructionDescription) : Change → InstructionDescription
  | .register regnum value => i.addRegChange ⟨regnum, value⟩
  | .memory address value => i.addMemChange ⟨address, value⟩

/-- The pending instruction and the finished ones. -/
abbrev Assembly := Option InstructionDescription × List InstructionDescription

/-- The effect of an item. -/
def Item.apply (a : Assembly) : Item → Assembly
  | .record (.change c) => (some ((a.1.getD {}).add c), a.2)
  | .record (.ending signal count) =>
      (none, a.2 ++ [{ a.1.getD {} with signal, instructionCount := count }])
  | .stray _ => (some (a.1.getD {}), a.2)

/-- All instructions of a log, the pending one included. -/
def assemble (a : Assembly) (items : List Item) : List InstructionDescription :=
  let a := items.foldl Item.apply a
  a.2 ++ a.1.toList

/-! ## Numbers of four and of eight bytes -/

theorem byteArrayToUInt64_at {offset length : Nat} (hoffset : offset % 4 = 0)
    (hlength : length ≤ 8) (front middle back : List UInt8) (hfront : front.length = offset)
    (hmiddle : middle.length = length) :
    byteArrayToUInt64 (front ++ (middle ++ back)) offset length false =
      .ok (UInt64.ofNat (fromBE middle)) := by
  have hlen : offset + length ≤ (front ++ (middle ++ back)).length := by
    rw [List.length_append, List.length_append]
    omega
  obtain ⟨value, hok, hvalue⟩ := byteArrayToUInt64_bigEndian hoffset hlength hlen
  rw [List.drop_left' hfront, List.take_left' hmiddle] at hvalue
  rw [hok, ← hvalue, UInt64.ofNat_toNat]

theorem byteArrayToUInt64_front {length : Nat} (hlength : length ≤ 8) (middle back : List UInt8)
    (hmiddle : middle.length = length) :
    byteArrayToUInt64 (middle ++ back) 0 length false = .ok (UInt64.ofNat (fromBE middle)) :=
  byteArrayToUInt64_at rfl hlength [] middle back rfl hmiddle

/-- Four bytes, cast to `UInt32`. -/
theorem cast_fromBE_toNat {bytes : List UInt8} (h : bytes.length = 4) :
    (UInt64.ofNat (fromBE bytes)).toUInt32.toNat = fromBE bytes := by
  have hlt := fromBE_lt bytes
  rw [h] at hlt
  rw [UInt64.toNat_toUInt32, UInt64.toNat_ofNat']
  omega

theorem cast_fromBE_toBE (x : UInt32) : (UInt64.ofNat (fromBE (toBE 4 x.toNat))).toUInt32 = x := by
  have hlt := x.toNat_lt
  apply UInt32.toNat_inj.mp
  rw [cast_fromBE_toNat (toBE_length _ _), fromBE_toBE]
  omega

theorem toBE_cast_fromBE {bytes : List UInt8} (h : bytes.length = 4) :
    toBE 4 (UInt64.ofNat (fromBE bytes)).toUInt32.toNat = bytes := by
  rw [cast_fromBE_toNat h, ← h, toBE_fromBE]

theorem ofNat_fromBE_toBE (x : UInt64) : UInt64.ofNat (fromBE (toBE 8 x.toNat)) = x := by
  have hlt := x.toNat_lt
  rw [fromBE_toBE, Nat.mod_eq_of_lt (by omega), UInt64.ofNat_toNat]

theorem toBE_ofNat_fromBE {bytes : List UInt8} (h : bytes.length = 8) :
    toBE 8 (UInt64.ofNat (fromBE bytes)).toNat = bytes := by
  have hlt := fromBE_lt bytes
  rw [h] at hlt
  rw [UInt64.toNat_ofNat', Nat.mod_eq_of_lt (by omega), ← h, toBE_fromBE]

/-! ## The readers on well-formed input -/

/-- A value is read whole. -/
theorem readWithException_append {value rest buffer : List UInt8} {length : UInt32}
    (hvalue : value.length = length.toNat) (hsmall : length.toNat < 2 ^ 31)
    (hroom : length.toNat ≤ buffer.length) :
    readWithException (value ++ rest) buffer 0 length =
      .ok (value ++ buffer.drop length.toNat, rest) := by
  rw [readWithException_eq hsmall hroom, if_neg (by rw [List.length_append]; omega),
    List.take_left' hvalue, List.drop_left' hvalue]

/-- A new array is filled with the value. -/
theorem readWithException_new {value rest : List UInt8} {length : UInt32}
    (hvalue : value.length = length.toNat) (hsmall : length.toNat < 2 ^ 31) :
    newByteArray length = .ok (List.replicate length.toNat 0) ∧
      readWithException (value ++ rest) (List.replicate length.toNat 0) 0 length =
        .ok (value, rest) := by
  refine ⟨if_neg (by omega), ?_⟩
  rw [readWithException_append hvalue hsmall (by rw [List.length_replicate]),
    List.drop_eq_nil_of_le (by rw [List.length_replicate]), List.append_nil]

variable {registers : Registers} {pending : InstructionDescription}
variable {buffer rest : List UInt8} {p : Option InstructionDescription}
variable {instructions : List InstructionDescription}

/-- A short field goes to the start of the shared buffer. -/
theorem readWithException_buffer (hbuffer : buffer.length = 100) {field : List UInt8}
    {length : UInt32} (hfield : field.length = length.toNat) (hshort : length.toNat ≤ 8) :
    readWithException (field ++ rest) buffer 0 length =
      .ok (field ++ buffer.drop length.toNat, rest) :=
  readWithException_append hfield (by omega) (by omega)

/-- `RecordEnd` on eight bytes. -/
theorem readEnd_eq (hbuffer : buffer.length = 100) {s c : List UInt8} (hs : s.length = 4)
    (hc : c.length = 4) :
    readEnd pending ⟨s ++ (c ++ rest), buffer, p, instructions⟩ =
      .ok ⟨rest, s ++ (c ++ buffer.drop 8), none, instructions ++
        [{ pending with
          signal := castInt (UInt64.ofNat (fromBE s)),
          instructionCount := castInt (UInt64.ofNat (fromBE c)) }]⟩ := by
  have hread : readWithException (s ++ (c ++ rest)) buffer 0 8 =
      .ok (s ++ (c ++ buffer.drop 8), rest) := by
    have hlen : (s ++ c).length = (8 : UInt32).toNat := by rw [List.length_append, hs, hc]; rfl
    rw [← List.append_assoc, readWithException_buffer hbuffer hlen (Nat.le_refl 8),
      List.append_assoc]
    rfl
  have hsignal := byteArrayToUInt64_front (by omega) s (c ++ buffer.drop 8) hs
  have hcount := byteArrayToUInt64_at rfl (by omega) s c (buffer.drop 8) hs hc
  simp only [readEnd, hread, bind, Except.bind, hsignal, hcount]
  rfl

/-- `RecordMem` on a length, an address and a value of that length. -/
theorem readMem_eq (hbuffer : buffer.length = 100) {l a v : List UInt8} (hl : l.length = 4)
    (ha : a.length = 8) (hv : v.length = fromBE l) (hsmall : fromBE l < 2 ^ 31) :
    readMem pending ⟨l ++ (a ++ (v ++ rest)), buffer, p, instructions⟩ =
      .ok ⟨rest, a ++ (l ++ buffer.drop 4).drop 8,
        some (pending.addMemChange ⟨UInt64.ofNat (fromBE a), v⟩), instructions⟩ := by
  have hlen : readWithException (l ++ (a ++ (v ++ rest))) buffer 0 4 =
      .ok (l ++ buffer.drop 4, a ++ (v ++ rest)) :=
    readWithException_buffer hbuffer hl (by simp)
  have haddr : readWithException (a ++ (v ++ rest)) (l ++ buffer.drop 4) 0 8 =
      .ok (a ++ (l ++ buffer.drop 4).drop 8, v ++ rest) := by
    have hbuffer' : (l ++ buffer.drop 4).length = 100 := by
      rw [List.length_append, List.length_drop, hl, hbuffer]
    exact readWithException_buffer hbuffer' ha (Nat.le_refl 8)
  have hlength := byteArrayToUInt64_front (by omega) l (buffer.drop 4) hl
  have haddress := byteArrayToUInt64_front (by omega) a ((l ++ buffer.drop 4).drop 8) ha
  have hcast : v.length = (UInt64.ofNat (fromBE l)).toUInt32.toNat := by
    rw [cast_fromBE_toNat hl, hv]
  obtain ⟨hnew, hvalue⟩ := @readWithException_new v rest _ hcast (by rw [← hcast, hv]; exact hsmall)
  simp only [readMem, hlen, bind, Except.bind, hlength, haddr, haddress, hnew, hvalue]
  rfl

/-- `RecordReg` on the number of a known register and a value of its size. -/
theorem readReg_eq (hbuffer : buffer.length = 100) {n v : List UInt8} (hn : n.length = 4)
    {reg : Register}
    (hreg : findRegisterByNum registers (UInt64.ofNat (fromBE n)).toUInt32 = some reg)
    (hv : v.length = reg.size.toNat) (hsmall : reg.size.toNat < 2 ^ 31) :
    readReg registers pending ⟨n ++ (v ++ rest), buffer, p, instructions⟩ =
      .ok ⟨rest, n ++ buffer.drop 4,
        some (pending.addRegChange ⟨(UInt64.ofNat (fromBE n)).toUInt32, v⟩), instructions⟩ := by
  have hnum : readWithException (n ++ (v ++ rest)) buffer 0 4 =
      .ok (n ++ buffer.drop 4, v ++ rest) :=
    readWithException_buffer hbuffer hn (by simp)
  have hregnum := byteArrayToUInt64_front (by omega) n (buffer.drop 4) hn
  obtain ⟨hnew, hvalue⟩ := @readWithException_new v rest _ hv hsmall
  simp only [readReg, hnum, bind, Except.bind, hregnum, hreg, hnew, hvalue]
  rfl

/-- **Completeness.** An item in front of the stream is consumed, with its effect. -/
theorem readEntry_encode {item : Item} (hwf : item.Wf registers) (hfits : item.Fits)
    (hbuffer : buffer.length = 100) (rest : List UInt8) :
    ∃ recType src buffer', item.encode ++ rest = recType :: src ∧ buffer'.length = 100 ∧
      readEntry registers recType ⟨src, buffer, p, instructions⟩ = .ok ⟨rest, buffer',
        (item.apply (p, instructions)).1, (item.apply (p, instructions)).2⟩ := by
  cases item with
  | stray b =>
      have hb : 3 ≤ b.toNat := hwf
      refine ⟨b, rest, buffer, rfl, hbuffer, ?_⟩
      have hne : ∀ k : UInt8, k.toNat < 3 → b ≠ k := by
        rintro k hk rfl
        omega
      rw [readEntry, if_neg (hne 0 (by simp)), if_neg (hne 2 (by simp)),
        if_neg (hne 1 (by simp))]
      rfl
  | record r =>
      cases r with
      | ending signal count =>
          have hread := @readEnd_eq (p.getD {}) buffer rest p instructions hbuffer
            (toBE 4 signal.toUInt32.toNat) (toBE 4 count.toUInt32.toNat) (toBE_length 4 _)
            (toBE_length 4 _)
          rw [castInt, castInt, cast_fromBE_toBE, cast_fromBE_toBE] at hread
          refine ⟨0, toBE 4 signal.toUInt32.toNat ++ (toBE 4 count.toUInt32.toNat ++ rest),
            toBE 4 signal.toUInt32.toNat ++ (toBE 4 count.toUInt32.toNat ++ buffer.drop 8),
            by simp [Item.encode, Record.encode], by simp [hbuffer], ?_⟩
          rw [readEntry, if_pos rfl]
          exact hread
      | change c =>
          cases c with
          | register regnum value =>
              obtain ⟨reg, hreg, hsize⟩ := hwf
              have hsmall : value.length < 2 ^ 31 := hfits
              have hread := @readReg_eq registers (p.getD {}) buffer rest p instructions hbuffer
                (toBE 4 regnum.toNat) value (toBE_length 4 _) reg
                (by rw [cast_fromBE_toBE]; exact hreg) hsize (by omega)
              rw [cast_fromBE_toBE] at hread
              refine ⟨1, toBE 4 regnum.toNat ++ (value ++ rest), toBE 4 regnum.toNat ++ buffer.drop 4,
                by simp [Item.encode, Record.encode, Change.encode], by simp [hbuffer], ?_⟩
              rw [readEntry, if_neg (by simp), if_neg (by simp), if_pos rfl]
              exact hread
          | memory address value =>
              have hsmall : value.length < 2 ^ 31 := hfits
              have hlength : fromBE (toBE 4 value.length) = value.length := by
                rw [fromBE_toBE, Nat.mod_eq_of_lt (by omega)]
              have hread := @readMem_eq (p.getD {}) buffer rest p instructions hbuffer
                (toBE 4 value.length) (toBE 8 address.toNat) value (toBE_length 4 _)
                (toBE_length 8 _) hlength.symm (by rw [hlength]; exact hsmall)
              rw [ofNat_fromBE_toBE] at hread
              refine ⟨2, toBE 4 value.length ++ (toBE 8 address.toNat ++ (value ++ rest)),
                toBE 8 address.toNat ++ (toBE 4 value.length ++ buffer.drop 4).drop 8,
                by simp [Item.encode, Record.encode, Change.encode], by simp [hbuffer], ?_⟩
              rw [readEntry, if_neg (by simp), if_pos rfl]
              exact hread

/-! ## What the readers accept -/

/-- The number at the start of a buffer that was just read into. -/
theorem byteArrayToUInt64_read {src : Source} {length : Nat} (hlength : length ≤ 8)
    (hsrc : length ≤ src.length) (back : List UInt8) :
    byteArrayToUInt64 (src.take length ++ back) 0 length false =
      .ok (UInt64.ofNat (fromBE (src.take length))) :=
  byteArrayToUInt64_front hlength _ _ (by rw [List.length_take]; omega)

/-- What `RecordEnd` accepts. -/
theorem readEnd_sound {src : Source} {st' : ReadState}
    (h : readEnd pending ⟨src, buffer, p, instructions⟩ = .ok st') :
    ∃ s c rest, s.length = 4 ∧ c.length = 4 ∧ src = s ++ (c ++ rest) := by
  simp only [readEnd, bind_ok] at h
  obtain ⟨⟨buffer', rest⟩, hread, _⟩ := h
  obtain ⟨_, hlen, _, _⟩ := readWithException_ok hread
  have height : (8 : UInt32).toNat = 8 := rfl
  refine ⟨src.take 4, (src.drop 4).take 4, (src.drop 4).drop 4, ?_, ?_, ?_⟩
  · rw [List.length_take]; omega
  · rw [List.length_take, List.length_drop]; omega
  · rw [List.take_append_drop, List.take_append_drop]

/-- What `RecordMem` accepts. -/
theorem readMem_sound {src : Source} {st' : ReadState}
    (h : readMem pending ⟨src, buffer, p, instructions⟩ = .ok st') :
    ∃ l a v rest, l.length = 4 ∧ a.length = 8 ∧ v.length = fromBE l ∧ fromBE l < 2 ^ 31 ∧
      src = l ++ (a ++ (v ++ rest)) := by
  simp only [readMem, bind_ok] at h
  obtain ⟨⟨buffer₁, src₁⟩, hlen, dataLen, hdataLen, ⟨buffer₂, src₂⟩, haddr, _, _, array, _,
    ⟨value, src₃⟩, hvalue, _⟩ := h
  have hfour : (4 : UInt32).toNat = 4 := rfl
  have height : (8 : UInt32).toNat = 8 := rfl
  obtain ⟨_, h₁, rfl, rfl⟩ := readWithException_ok hlen
  obtain ⟨_, h₂, rfl, rfl⟩ := readWithException_ok haddr
  obtain ⟨hsmall, h₃, _, rfl⟩ := readWithException_ok hvalue
  rw [hfour] at h₁ h₂ h₃ hdataLen
  rw [height] at h₂ h₃
  dsimp only at h₂ h₃
  have hl : (src.take 4).length = 4 := by rw [List.length_take]; omega
  rw [byteArrayToUInt64_read (by omega) h₁] at hdataLen
  cases hdataLen
  rw [cast_fromBE_toNat hl] at hsmall h₃
  refine ⟨src.take 4, (src.drop 4).take 8, ((src.drop 4).drop 8).take (fromBE (src.take 4)),
    ((src.drop 4).drop 8).drop (fromBE (src.take 4)), hl, ?_, ?_, hsmall, ?_⟩
  · rw [List.length_take]; omega
  · rw [List.length_take]; omega
  · rw [List.take_append_drop, List.take_append_drop, List.take_append_drop]

/-- What `RecordReg` accepts. -/
theorem readReg_sound {src : Source} {st' : ReadState}
    (h : readReg registers pending ⟨src, buffer, p, instructions⟩ = .ok st') :
    ∃ n v rest reg, n.length = 4 ∧
      findRegisterByNum registers (UInt64.ofNat (fromBE n)).toUInt32 = some reg ∧
      v.length = reg.size.toNat ∧ reg.size.toNat < 2 ^ 31 ∧ src = n ++ (v ++ rest) := by
  simp only [readReg, bind_ok] at h
  obtain ⟨⟨buffer₁, src₁⟩, hnum, regnum, hregnum, h⟩ := h
  have hfour : (4 : UInt32).toNat = 4 := rfl
  obtain ⟨_, h₁, rfl, rfl⟩ := readWithException_ok hnum
  rw [hfour] at h₁ hregnum h
  rw [byteArrayToUInt64_read (by omega) h₁] at hregnum
  cases hregnum
  split at h
  · cases h
  · rename_i reg hreg
    simp only [bind_ok] at h
    obtain ⟨array, _, ⟨value, src₂⟩, hvalue, _⟩ := h
    obtain ⟨hsmall, h₂, _, _⟩ := readWithException_ok hvalue
    refine ⟨src.take 4, (src.drop 4).take reg.size.toNat, (src.drop 4).drop reg.size.toNat, reg,
      ?_, hreg, ?_, hsmall, ?_⟩
    · rw [List.length_take]; omega
    · rw [List.length_take]; omega
    · rw [List.take_append_drop, List.take_append_drop]

/-- **Soundness.** What an entry has consumed is the encoding of an item. -/
theorem readEntry_sound {recType : UInt8} {src : Source} {st' : ReadState}
    (h : readEntry registers recType ⟨src, buffer, p, instructions⟩ = .ok st') :
    ∃ item : Item, item.Wf registers ∧ item.Fits ∧
      ∃ rest, recType :: src = item.encode ++ rest := by
  simp only [readEntry] at h
  split at h
  · rename_i hzero
    subst hzero
    obtain ⟨s, c, rest, hs, hc, rfl⟩ := readEnd_sound h
    refine ⟨.record (.ending (castInt (UInt64.ofNat (fromBE s))) (castInt (UInt64.ofNat (fromBE c)))),
      trivial, trivial, rest, ?_⟩
    have hs' : toBE 4 (castInt (UInt64.ofNat (fromBE s))).toUInt32.toNat = s := toBE_cast_fromBE hs
    have hc' : toBE 4 (castInt (UInt64.ofNat (fromBE c))).toUInt32.toNat = c := toBE_cast_fromBE hc
    simp only [Item.encode, Record.encode, hs', hc', List.cons_append, List.append_assoc]
  · split at h
    · rename_i htwo
      subst htwo
      obtain ⟨l, a, v, rest, hl, ha, hv, hsmall, rfl⟩ := readMem_sound h
      have hv' : toBE 4 v.length = l := by rw [hv, ← hl, toBE_fromBE]
      refine ⟨.record (.change (.memory (UInt64.ofNat (fromBE a)) v)), ?_, ?_, rest, ?_⟩
      · show v.length < 2 ^ 32
        omega
      · show v.length < 2 ^ 31
        omega
      · simp only [Item.encode, Record.encode, Change.encode, hv', toBE_ofNat_fromBE ha,
          List.cons_append, List.append_assoc]
    · split at h
      · rename_i hone
        subst hone
        obtain ⟨n, v, rest, reg, hn, hreg, hv, hsmall, rfl⟩ := readReg_sound h
        refine ⟨.record (.change (.register (UInt64.ofNat (fromBE n)).toUInt32 v)), ⟨reg, hreg, hv⟩,
          ?_, rest, ?_⟩
        · show v.length < 2 ^ 31
          omega
        · simp only [Item.encode, Record.encode, Change.encode, toBE_cast_fromBE hn,
            List.cons_append, List.append_assoc]
      · rename_i hzero htwo hone
        refine ⟨.stray recType, ?_, trivial, src, rfl⟩
        show 3 ≤ recType.toNat
        by_contra hlt
        have hcases : recType.toNat = 0 ∨ recType.toNat = 1 ∨ recType.toNat = 2 := by omega
        rcases hcases with h0 | h1 | h2
        · exact hzero (UInt8.toNat_inj.mp h0)
        · exact hone (UInt8.toNat_inj.mp h1)
        · exact htwo (UInt8.toNat_inj.mp h2)

/-! ## Whole logs -/

/-- The bytes of a list of items. -/
def encodeItems (items : List Item) : List UInt8 := items.flatMap Item.encode

/-- Every item is well formed and fits. -/
def Readable (registers : Registers) (items : List Item) : Prop :=
  ∀ item ∈ items, item.Wf registers ∧ item.Fits

theorem readEntries_nil (registers : Registers) (buffer : List UInt8)
    (p : Option InstructionDescription) (instructions : List InstructionDescription) :
    readEntries registers ⟨[], buffer, p, instructions⟩ = .ok ⟨[], buffer, p, instructions⟩ := by
  rw [readEntries]

theorem readEntries_cons (registers : Registers) (recType : UInt8) (src : Source)
    (buffer : List UInt8) (p : Option InstructionDescription)
    (instructions : List InstructionDescription) :
    readEntries registers ⟨recType :: src, buffer, p, instructions⟩ =
      (readEntry registers recType ⟨src, buffer, p, instructions⟩).bind (readEntries registers) := by
  rw [readEntries]
  split
  · rename_i heq; cases heq
  · rename_i recType' src' heq
    cases heq
    cases hentry : readEntry registers recType ⟨src, buffer, p, instructions⟩ with
    | error raised => rfl
    | ok st' => rfl

/-- The loop on encoded items: it returns, with what they assemble to. -/
theorem readEntries_encode {items : List Item} (h : Readable registers items)
    (hbuffer : buffer.length = 100) :
    ∃ buffer', readEntries registers ⟨encodeItems items, buffer, p, instructions⟩ =
      .ok ⟨[], buffer', (items.foldl Item.apply (p, instructions)).1,
        (items.foldl Item.apply (p, instructions)).2⟩ := by
  induction items generalizing buffer p instructions with
  | nil => exact ⟨buffer, readEntries_nil _ _ _ _⟩
  | cons item items ih =>
      obtain ⟨hwf, hfits⟩ := h item List.mem_cons_self
      obtain ⟨recType, src, buffer', hsplit, hbuffer', hentry⟩ :=
        @readEntry_encode registers buffer p instructions item hwf hfits hbuffer (encodeItems items)
      obtain ⟨buffer'', hrest⟩ := ih (fun i hi => h i (List.mem_cons_of_mem _ hi)) hbuffer'
      refine ⟨buffer'', ?_⟩
      rw [encodeItems, List.flatMap_cons, ← encodeItems, hsplit, readEntries_cons, hentry]
      exact hrest

/-- A loop that returns has read encoded items. -/
theorem readEntries_sound {src : Source} {st' : ReadState} (hbuffer : buffer.length = 100)
    (h : readEntries registers ⟨src, buffer, p, instructions⟩ = .ok st') :
    ∃ items, Readable registers items ∧ src = encodeItems items := by
  -- along the entries: each leaves a shorter stream and a buffer of the same size
  induction hn : src.length using Nat.strongRecOn generalizing src buffer p instructions with
  | ind n ih =>
      subst hn
      cases src with
      | nil => exact ⟨[], fun i hi => (by cases hi), rfl⟩
      | cons recType src =>
          rw [readEntries_cons] at h
          cases hentry : readEntry registers recType ⟨src, buffer, p, instructions⟩ with
          | error raised => rw [hentry] at h; cases h
          | ok st₁ =>
              obtain ⟨item, hwf, hfits, rest, hrest⟩ := readEntry_sound hentry
              obtain ⟨recType', src', buffer', hsplit, hbuffer', hsame⟩ :=
                @readEntry_encode registers buffer p instructions item hwf hfits hbuffer rest
              rw [← hrest] at hsplit
              cases hsplit
              rw [hsame] at h
              have hshorter : rest.length < (recType :: src).length := by
                have := readEntry_length hsame
                simpa using Nat.lt_succ_of_le this
              obtain ⟨items, hreadable, rfl⟩ := ih _ hshorter hbuffer' h rfl
              refine ⟨item :: items, ?_, hrest⟩
              intro i hi
              rcases List.mem_cons.mp hi with rfl | hi
              · exact ⟨hwf, hfits⟩
              · exact hreadable i hi

/-- The magic number. -/
def magicBytes : List UInt8 := [0x20, 0x09, 0x10, 0x16]

/-- The instructions of a list of items, from the start of `Read`. -/
def instructionsOf (items : List Item) : List InstructionDescription :=
  assemble (some {}, []) items

/-- `Read` on a log. -/
theorem readSection_encode {items : List Item} (h : Readable registers items) :
    readSection registers (magicBytes ++ encodeItems items) = .ok (instructionsOf items) := by
  obtain ⟨buffer', hloop⟩ := @readEntries_encode registers (List.replicate 100 0) (some {}) [] items
    h List.length_replicate
  have hread : Source.read (magicBytes ++ encodeItems items) 4 = (magicBytes, encodeItems items) :=
    rfl
  have hmagic : byteArrayToUInt64 magicBytes 0 4 false = .ok 0x20091016 := by decide
  have hcast : castInt 0x20091016 = recordFileMagic := by decide
  have hlen : magicBytes.length = 4 := rfl
  rw [readSection, hread, if_neg (not_not_intro hlen)]
  simp only [hmagic, hcast, ne_eq, not_true_eq_false, if_false, hloop]
  rfl

/-- **What `Read` accepts.** It returns exactly on logs, with the instructions of
their items. -/
theorem readSection_ok_iff {src : Source} {result : List InstructionDescription} :
    readSection registers src = .ok result ↔
      ∃ items, Readable registers items ∧ src = magicBytes ++ encodeItems items ∧
        result = instructionsOf items := by
  constructor
  · intro h
    have hsrc : ∃ rest, src = magicBytes ++ rest ∧
        ∃ st, readEntries registers ⟨rest, List.replicate 100 0, some {}, []⟩ = .ok st := by
      rw [readSection] at h
      by_cases hlen : (src.read 4).1.length = 4
      · rw [if_neg (not_not_intro hlen)] at h
        have hvalue := byteArrayToUInt64_front (by omega) (src.read 4).1 [] hlen
        rw [List.append_nil] at hvalue
        rw [hvalue] at h
        simp only at h
        by_cases hmagic : castInt (UInt64.ofNat (fromBE (src.read 4).1)) = recordFileMagic
        · rw [if_neg (not_not_intro hmagic)] at h
          have hcast : (UInt64.ofNat (fromBE (src.read 4).1)).toUInt32 = 0x20091016 :=
            congrArg Int32.toUInt32 hmagic
          have hbytes : (src.read 4).1 = magicBytes := by
            rw [← toBE_cast_fromBE hlen, hcast]
            decide
          cases hloop : readEntries registers ⟨(src.read 4).2, List.replicate 100 0, some {}, []⟩ with
          | error raised => rw [hloop] at h; cases h
          | ok st =>
              refine ⟨(src.read 4).2, ?_, st, hloop⟩
              rw [← hbytes]
              exact (List.take_append_drop 4 src).symm
        · rw [if_pos hmagic] at h
          cases h
      · rw [if_pos hlen] at h
        cases h
    obtain ⟨rest, rfl, st, hst⟩ := hsrc
    obtain ⟨items, hreadable, rfl⟩ := readEntries_sound List.length_replicate hst
    rw [readSection_encode hreadable] at h
    exact ⟨items, hreadable, rfl, (Except.ok.inj h).symm⟩
  · rintro ⟨items, hreadable, rfl, rfl⟩
    exact readSection_encode hreadable

/-! ## The encoding is a prefix code -/

theorem toBE_inj {w n m : Nat} (hn : n < 256 ^ w) (hm : m < 256 ^ w) (h : toBE w n = toBE w m) :
    n = m := by
  rw [← Nat.mod_eq_of_lt hn, ← fromBE_toBE, h, fromBE_toBE, Nat.mod_eq_of_lt hm]

theorem Change.encode_append_inj {c c' : Change} (hc : c.Wf registers) (hc' : c'.Wf registers)
    {rest rest' : List UInt8} (h : c.encode ++ rest = c'.encode ++ rest') :
    c = c' ∧ rest = rest' := by
  cases c with
  | register regnum value =>
      cases c' with
      | memory address' value' => cases h
      | register regnum' value' =>
          simp only [Change.encode, List.cons_append, List.append_assoc, List.cons.injEq,
            true_and] at h
          obtain ⟨hnum, hvalue⟩ := List.append_inj h (by simp)
          have hregnum : regnum = regnum' := UInt32.toNat_inj.mp
            (toBE_inj regnum.toNat_lt regnum'.toNat_lt hnum)
          subst hregnum
          obtain ⟨reg, hreg, hsize⟩ := hc
          obtain ⟨reg', hreg', hsize'⟩ := hc'
          rw [hreg] at hreg'
          cases hreg'
          obtain ⟨rfl, rfl⟩ := List.append_inj hvalue (by rw [hsize, hsize'])
          exact ⟨rfl, rfl⟩
  | memory address value =>
      cases c' with
      | register regnum' value' => cases h
      | memory address' value' =>
          simp only [Change.encode, List.cons_append, List.append_assoc, List.cons.injEq,
            true_and] at h
          obtain ⟨hlen, htail⟩ := List.append_inj h (by simp)
          obtain ⟨haddr, hvalue⟩ := List.append_inj htail (by simp)
          have haddress : address = address' := UInt64.toNat_inj.mp
            (toBE_inj address.toNat_lt address'.toNat_lt haddr)
          obtain ⟨rfl, rfl⟩ := List.append_inj hvalue (toBE_inj hc hc' hlen)
          exact ⟨by rw [haddress], rfl⟩

theorem Change.encode_head (c : Change) : ∃ b tail, c.encode = b :: tail ∧ (b = 1 ∨ b = 2) := by
  cases c with
  | register regnum value => exact ⟨1, _, rfl, Or.inl rfl⟩
  | memory address value => exact ⟨2, _, rfl, Or.inr rfl⟩

theorem Record.encode_append_inj {r r' : Record} (hr : r.Wf registers) (hr' : r'.Wf registers)
    {rest rest' : List UInt8} (h : r.encode ++ rest = r'.encode ++ rest') :
    r = r' ∧ rest = rest' := by
  cases r with
  | change c =>
      cases r' with
      | change c' =>
          obtain ⟨rfl, rfl⟩ := Change.encode_append_inj hr hr' h
          exact ⟨rfl, rfl⟩
      | ending signal' count' =>
          obtain ⟨b, tail, hb, hcases⟩ := c.encode_head
          rw [Record.encode, hb] at h
          rcases hcases with rfl | rfl <;> cases h
  | ending signal count =>
      cases r' with
      | change c' =>
          obtain ⟨b, tail, hb, hcases⟩ := c'.encode_head
          rw [show (Record.change c').encode = c'.encode from rfl, hb] at h
          rcases hcases with rfl | rfl <;> cases h
      | ending signal' count' =>
          simp only [Record.encode, List.cons_append, List.append_assoc, List.cons.injEq,
            true_and] at h
          obtain ⟨hs, htail⟩ := List.append_inj h (by simp)
          obtain ⟨hc, rfl⟩ := List.append_inj htail (by simp)
          have hsame : ∀ x y : Int32,
              toBE 4 x.toUInt32.toNat = toBE 4 y.toUInt32.toNat → x = y := by
            intro x y hxy
            exact congrArg UInt32.toInt32 (UInt32.toNat_inj.mp
              (toBE_inj x.toUInt32.toNat_lt y.toUInt32.toNat_lt hxy))
          have hsignal := hsame _ _ hs
          have hcount := hsame _ _ hc
          exact ⟨by rw [hsignal, hcount], rfl⟩

theorem Record.encode_head (r : Record) : ∃ b tail, r.encode = b :: tail ∧ b.toNat < 3 := by
  cases r with
  | change c =>
      obtain ⟨b, tail, hb, hcases⟩ := c.encode_head
      refine ⟨b, tail, hb, ?_⟩
      rcases hcases with rfl | rfl <;> decide
  | ending signal count => exact ⟨0, _, rfl, by simp⟩

theorem Item.encode_append_inj {i i' : Item} (hi : i.Wf registers) (hi' : i'.Wf registers)
    {rest rest' : List UInt8} (h : i.encode ++ rest = i'.encode ++ rest') :
    i = i' ∧ rest = rest' := by
  -- a stray byte is not the type byte of a record
  have hmixed : ∀ (r : Record) (b : UInt8) (rest rest' : List UInt8), 3 ≤ b.toNat →
      r.encode ++ rest ≠ [b] ++ rest' := by
    intro r b rest rest' hb heq
    obtain ⟨b', tail, hhead, hlt⟩ := r.encode_head
    rw [hhead] at heq
    cases heq
    omega
  cases i with
  | record r =>
      cases i' with
      | record r' =>
          obtain ⟨rfl, rfl⟩ := Record.encode_append_inj hi hi' h
          exact ⟨rfl, rfl⟩
      | stray b' => exact absurd h (hmixed r b' _ _ hi')
  | stray b =>
      cases i' with
      | record r' => exact absurd h.symm (hmixed r' b _ _ hi)
      | stray b' =>
          cases h
          exact ⟨rfl, rfl⟩

theorem Item.encode_ne_nil (i : Item) : i.encode ≠ [] := by
  cases i with
  | record r =>
      obtain ⟨b, tail, hhead, _⟩ := r.encode_head
      rw [Item.encode, hhead]
      exact List.cons_ne_nil _ _
  | stray b => exact List.cons_ne_nil _ _

/-- A log is the encoding of at most one list of items. -/
theorem encodeItems_inj {items items' : List Item} (h : ∀ i ∈ items, i.Wf registers)
    (h' : ∀ i ∈ items', i.Wf registers) (heq : encodeItems items = encodeItems items') :
    items = items' := by
  induction items generalizing items' with
  | nil =>
      cases items' with
      | nil => rfl
      | cons i' rest' =>
          exact absurd (List.append_eq_nil_iff.mp heq.symm).1 i'.encode_ne_nil
  | cons i rest ih =>
      cases items' with
      | nil => exact absurd (List.append_eq_nil_iff.mp heq).1 i.encode_ne_nil
      | cons i' rest' =>
          obtain ⟨rfl, hrest⟩ := Item.encode_append_inj (h i List.mem_cons_self)
            (h' i' List.mem_cons_self) heq
          rw [ih (fun j hj => h j (List.mem_cons_of_mem _ hj))
            (fun j hj => h' j (List.mem_cons_of_mem _ hj)) hrest]

end InMemoryFuzzing.CoreDump

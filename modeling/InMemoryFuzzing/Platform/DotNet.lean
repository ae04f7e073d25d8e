import InMemoryFuzzing.Base.Collect
import InMemoryFuzzing.Base.Endian
import InMemoryFuzzing.Base.Text

/-!
# The .NET side: exceptions, `BitConverter`, the ASCII encoding and text

What the modelled C# classes take from the framework. `BitConverter` follows
the byte order of the machine, little-endian on every platform the fuzzer
supports. Strings are sequences of characters; `Encoding.ASCII` replaces what
it cannot represent by a question mark, in both directions.
-/

namespace InMemoryFuzzing.Platform.DotNet

open Base

/-- The exceptions the modelled code raises or lets through. -/
inductive NetException
  /-- `ArgumentException`, with its message. -/
  | argument (message : String)
  /-- `OverflowException`: an array of negative length, or a number out of range. -/
  | overflow
  /-- `FormatException`. -/
  | format
  /-- A framework call whose index or count is outside its array. -/
  | outOfRange
  /-- `Dictionary.Add` with a key that is there already. -/
  | duplicateKey
  /-- A member of null is used. -/
  | nullReference
  deriving DecidableEq, Repr

/-- `BitConverter.GetBytes(UInt16)`. -/
def getBytesUInt16 (value : Nat) : List UInt8 := toLE 2 (value % 2 ^ 16)

/-- `BitConverter.ToUInt16(value, startIndex)`. -/
def toUInt16 (value : List UInt8) (startIndex : Nat) : Except NetException UInt16 :=
  if startIndex + 2 ≤ value.length then
    .ok (UInt16.ofNat (fromLE ((value.drop startIndex).take 2)))
  else .error .outOfRange

/-- The conversion `(Int16)`, unchecked. -/
def castInt16 (value : Int) : Int := Int.bmod value (2 ^ 16)

/-- `BitConverter.GetBytes(Int16)`. -/
def getBytesInt16 (value : Int) : List UInt8 := toLE 2 (value % 2 ^ 16).toNat

/-- `BitConverter.ToInt16(value, startIndex)`. -/
def toInt16 (value : List UInt8) (startIndex : Nat) : Except NetException Int :=
  if startIndex + 2 ≤ value.length then
    .ok (Int.bmod (fromLE ((value.drop startIndex).take 2)) (2 ^ 16))
  else .error .outOfRange

/-- `BitConverter.GetBytes(Int32)`. -/
def getBytesInt32 (value : Int) : List UInt8 := toLE 4 (value % 2 ^ 32).toNat

/-- `BitConverter.ToInt32(value, startIndex)`. -/
def toInt32 (value : List UInt8) (startIndex : Nat) : Except NetException Int :=
  if startIndex + 4 ≤ value.length then
    .ok (Int.bmod (fromLE ((value.drop startIndex).take 4)) (2 ^ 32))
  else .error .outOfRange

/-- `BitConverter.GetBytes(UInt32)`. -/
def getBytesUInt32 (value : UInt32) : List UInt8 := toLE 4 value.toNat

/-- `BitConverter.ToUInt32(value, startIndex)`. -/
def toUInt32 (value : List UInt8) (startIndex : Nat) : Except NetException UInt32 :=
  if startIndex + 4 ≤ value.length then
    .ok (UInt32.ofNat (fromLE ((value.drop startIndex).take 4)))
  else .error .outOfRange

/-- `BitConverter.GetBytes(UInt64)`. -/
def getBytesUInt64 (value : UInt64) : List UInt8 := toLE 8 value.toNat

/-- `BitConverter.ToUInt64(value, startIndex)`. -/
def toUInt64 (value : List UInt8) (startIndex : Nat) : Except NetException UInt64 :=
  if startIndex + 8 ≤ value.length then
    .ok (UInt64.ofNat (fromLE ((value.drop startIndex).take 8)))
  else .error .outOfRange

/-- `BitConverter.GetBytes(Int64)`. -/
def getBytesInt64 (value : Int64) : List UInt8 := getBytesUInt64 value.toUInt64

/-- `BitConverter.ToInt64(value, startIndex)`. -/
def toInt64 (value : List UInt8) (startIndex : Nat) : Except NetException Int64 :=
  (toUInt64 value startIndex).map UInt64.toInt64

/-- The result of `int` arithmetic. -/
def castInt32 (value : Int) : Int := Int.bmod value (2 ^ 32)

theorem castInt32_of_int {v : Int} (hlow : -2 ^ 31 ≤ v) (hhigh : v < 2 ^ 31) :
    castInt32 v = v := Int.bmod_eq_of_le (by omega) (by omega)

/-- `Encoding.ASCII.GetBytes`. -/
def asciiGetBytes (s : String) : List UInt8 :=
  s.toList.map fun c => if c.toNat < 128 then UInt8.ofNat c.toNat else 63

/-- `Encoding.ASCII.GetString`. -/
def asciiGetString (bytes : List UInt8) : String :=
  String.ofList (bytes.map fun b => if b.toNat < 128 then Char.ofNat b.toNat else '?')

/-- `Encoding.ASCII.GetString(bytes, index, count)`. -/
def asciiGetStringAt (bytes : List UInt8) (index : Nat) (count : Int) :
    Except NetException String :=
  if count < 0 then .error .outOfRange
  else if index + count.toNat ≤ bytes.length then
    .ok (asciiGetString ((bytes.drop index).take count.toNat))
  else .error .outOfRange

/-- The bytes of a count that is converted to `Int16`. -/
theorem getBytesInt16_castInt16 (n : Nat) : getBytesInt16 (castInt16 n) = toLE 2 (n % 2 ^ 16) := by
  have hmod : castInt16 n % 2 ^ 16 = (n % 2 ^ 16 : Nat) := by
    rw [castInt16, Int.bmod_def]
    split <;> omega
  rw [getBytesInt16, hmod, Int.toNat_natCast]

@[simp] theorem asciiGetBytes_length (s : String) : (asciiGetBytes s).length = s.toList.length := by
  simp [asciiGetBytes]

/-- ASCII text survives being encoded and decoded again. -/
theorem asciiGetString_getBytes {s : String} (hascii : ∀ c ∈ s.toList, c.toNat < 128) :
    asciiGetString (asciiGetBytes s) = s := by
  apply String.toList_inj.mp
  simp only [asciiGetBytes, asciiGetString, String.toList_ofList, List.map_map]
  conv => rhs; rw [← List.map_id s.toList]
  apply List.map_congr_left
  intro c hc
  have hlt := hascii c hc
  have hbyte : (UInt8.ofNat c.toNat).toNat = c.toNat := by
    rw [UInt8.toNat_ofNat']
    omega
  simp [hlt, hbyte]

theorem toNat_ofNat_ascii {n : Nat} (h : n < 128) : (Char.ofNat n).toNat = n := by
  have hvalid : n.isValidChar := Or.inl (by omega)
  rw [Char.ofNat, dif_pos hvalid]
  rfl

/-- ASCII bytes survive being decoded and encoded again. -/
theorem asciiGetBytes_getString {bytes : List UInt8} (h : ∀ b ∈ bytes, b.toNat < 128) :
    asciiGetBytes (asciiGetString bytes) = bytes := by
  simp only [asciiGetBytes, asciiGetString, String.toList_ofList, List.map_map]
  conv => rhs; rw [← List.map_id bytes]
  apply List.map_congr_left
  intro b hb
  simp [h b hb, toNat_ofNat_ascii (h b hb)]

/-- Characters other than NUL give bytes other than 0. -/
theorem asciiGetBytes_ne_zero {s : String} (hascii : ∀ c ∈ s.toList, 1 ≤ c.toNat ∧ c.toNat ≤ 127) :
    ∀ b ∈ asciiGetBytes s, b ≠ 0 := by
  intro b hb
  obtain ⟨c, hc, rfl⟩ := List.mem_map.mp hb
  obtain ⟨hpos, hle⟩ := hascii c hc
  rw [if_pos (by omega)]
  intro hzero
  have := congrArg UInt8.toNat hzero
  rw [UInt8.toNat_ofNat', UInt8.toNat_zero] at this
  omega

/-! ## Reading at an offset -/

theorem toInt16_of_drop {data rest : List UInt8} {offset n : Nat}
    (h : data.drop offset = toLE 2 n ++ rest) (hn : n ≤ 32767) : toInt16 data offset = .ok (n : Int) := by
  have hlen := congrArg List.length h
  rw [List.length_drop, List.length_append, toLE_length] at hlen
  rw [toInt16, if_pos (by omega), h, List.take_left' (toLE_length 2 n), fromLE_toLE,
    Nat.mod_eq_of_lt (by omega), Int.bmod_eq_of_le (by omega) (by omega)]

theorem toInt32_of_drop {data front rest : List UInt8} {offset : Nat}
    (h : data.drop offset = front ++ rest) (hfront : front.length = 4) :
    toInt32 data offset = .ok (Int.bmod (fromLE front) (2 ^ 32)) := by
  have hlen := congrArg List.length h
  rw [List.length_drop, List.length_append, hfront] at hlen
  rw [toInt32, if_pos (by omega), h, List.take_left' hfront]

theorem asciiGetStringAt_of_drop {data s rest : List UInt8} {offset : Nat}
    (h : data.drop offset = s ++ rest) (hoffset : offset ≤ data.length) :
    asciiGetStringAt data offset s.length = .ok (asciiGetString s) := by
  have hlen := congrArg List.length h
  rw [List.length_drop, List.length_append] at hlen
  rw [asciiGetStringAt, if_neg (by omega), Int.toNat_natCast, if_pos (by omega), h, List.take_left]

/-! ## Numbers in text -/

/-- The white space that number parsing skips. -/
def isWhite (c : Char) : Bool := (9 ≤ c.toNat && c.toNat ≤ 13) || c.toNat == 32

/-- A text without the white space around it. -/
def trimWhite (text : List Char) : List Char :=
  ((text.dropWhile isWhite).reverse.dropWhile isWhite).reverse

/-- A sign, if there is one, and digits: `NumberStyles.Integer`. -/
def parseInteger (text : List Char) : Option Int :=
  match trimWhite text with
  | '-' :: digits => (parseDigits 10 digits).map fun (n : Nat) => -(n : Int)
  | '+' :: digits => (parseDigits 10 digits).map fun (n : Nat) => (n : Int)
  | digits => (parseDigits 10 digits).map fun (n : Nat) => (n : Int)

/-- `int.TryParse`. -/
def intTryParse (text : List Char) : Option Int :=
  (parseInteger text).filter fun v => -2 ^ 31 ≤ v ∧ v < 2 ^ 31

/-- `UInt64.TryParse`. -/
def uint64TryParse (text : List Char) : Option UInt64 :=
  ((parseInteger text).filter fun v => 0 ≤ v ∧ v < 2 ^ 64).map fun (v : Int) => UInt64.ofNat v.toNat

/-- `UInt64.TryParse` with `NumberStyles.HexNumber`: no sign. -/
def uint64TryParseHex (text : List Char) : Option UInt64 :=
  ((parseDigits 16 (trimWhite text)).filter fun n => n < 2 ^ 64).map UInt64.ofNat

/-- `Byte.Parse` with `NumberStyles.HexNumber`, where it does not raise. -/
def byteParseHex (text : List Char) : Option UInt8 :=
  ((parseDigits 16 (trimWhite text)).filter fun n => n < 2 ^ 8).map UInt8.ofNat

theorem dropWhile_of_none {p : Char → Bool} {text : List Char} (h : ∀ c ∈ text, p c = false) :
    text.dropWhile p = text := by
  cases text with
  | nil => rfl
  | cons c rest => simp [h c List.mem_cons_self]

theorem trimWhite_of_none {text : List Char} (h : ∀ c ∈ text, isWhite c = false) :
    trimWhite text = text := by
  rw [trimWhite, dropWhile_of_none h, dropWhile_of_none (by simpa using h), List.reverse_reverse]

theorem isWhite_digitChar {d : Nat} (h : d < 16) : isWhite d.digitChar = false := by
  interval_cases d <;> rfl

theorem not_isWhite_of_mem_toDigits {base n : Nat} (hbase : 1 < base) (hle : base ≤ 16) {c : Char}
    (h : c ∈ Nat.toDigits base n) : isWhite c = false := by
  obtain ⟨d, hd, rfl⟩ := mem_toDigits hbase h
  exact isWhite_digitChar (by omega)

/-- A printed natural number is read back. -/
theorem parseInteger_toDigits (n : Nat) : parseInteger (Nat.toDigits 10 n) = some (n : Int) := by
  have hparse : parseDigits 10 (Nat.toDigits 10 n) = some n :=
    parseDigits_toDigits (by omega) (by omega) n
  rw [parseInteger, trimWhite_of_none fun c => not_isWhite_of_mem_toDigits (by omega) (by omega)]
  split
  · rename_i digits hdigits
    exact absurd (hdigits ▸ List.mem_cons_self)
      (not_mem_toDigits (n := n) (by omega) (by omega) rfl)
  · rename_i digits hdigits
    exact absurd (hdigits ▸ List.mem_cons_self)
      (not_mem_toDigits (n := n) (by omega) (by omega) rfl)
  · rw [hparse]
    rfl

/-- So is a negative one. -/
theorem parseInteger_neg (n : Nat) :
    parseInteger ('-' :: Nat.toDigits 10 n) = some (-(n : Int)) := by
  have hparse : parseDigits 10 (Nat.toDigits 10 n) = some n :=
    parseDigits_toDigits (by omega) (by omega) n
  have htrim : trimWhite ('-' :: Nat.toDigits 10 n) = '-' :: Nat.toDigits 10 n := by
    apply trimWhite_of_none
    intro c hc
    rcases List.mem_cons.mp hc with rfl | hc
    · rfl
    · exact not_isWhite_of_mem_toDigits (by omega) (by omega) hc
  rw [parseInteger, htrim]
  show (parseDigits 10 (Nat.toDigits 10 n)).map _ = _
  rw [hparse]
  rfl

/-- A printed integer is read back. -/
theorem parseInteger_toString (v : Int) : parseInteger (toString v).toList = some v := by
  cases v with
  | ofNat n =>
      have hlist : (toString (Int.ofNat n)).toList = Nat.toDigits 10 n :=
        String.toList_ofList
      rw [hlist, parseInteger_toDigits]
      rfl
  | negSucc n =>
      have hlist : (toString (Int.negSucc n)).toList = '-' :: Nat.toDigits 10 (n + 1) := by
        show ("-" ++ Nat.repr (n + 1)).toList = _
        rw [String.toList_append]
        exact congrArg ('-' :: ·) String.toList_ofList
      rw [hlist, parseInteger_neg]
      rfl

/-- Different integers are printed differently. -/
theorem toString_int_injective {v w : Int} (h : toString v = toString w) : v = w := by
  have hparse := congrArg (fun s : String => parseInteger s.toList) h
  rw [parseInteger_toString, parseInteger_toString] at hparse
  exact Option.some.inj hparse

theorem toString_nat_injective {m n : Nat} (h : toString m = toString n) : m = n :=
  Int.ofNat_inj.mp (toString_int_injective (v := m) (w := n) h)

theorem uint64TryParse_toDigits (value : UInt64) :
    uint64TryParse (Nat.toDigits 10 value.toNat) = some value := by
  have hlt : value.toNat < 2 ^ 64 := value.toNat_lt
  rw [uint64TryParse, parseInteger_toDigits, Option.filter_some, if_pos (by simp; omega),
    Option.map_some, Int.toNat_natCast, UInt64.ofNat_toNat]

theorem uint64TryParseHex_toDigits (value : UInt64) :
    uint64TryParseHex (Nat.toDigits 16 value.toNat) = some value := by
  have hlt : value.toNat < 2 ^ 64 := value.toNat_lt
  rw [uint64TryParseHex,
    trimWhite_of_none fun c => not_isWhite_of_mem_toDigits (by omega) (by omega),
    parseDigits_toDigits (by omega) (by omega), Option.filter_some, if_pos (by simpa using hlt),
    Option.map_some, UInt64.ofNat_toNat]

/-! ## Lines and words -/

/-- `StreamReader.ReadLine` until the end of the stream: a line ends at a line
feed, a carriage return, or both together. -/
def readLines : List Char → List (List Char)
  | [] => []
  | '\n' :: rest => [] :: readLines rest
  | '\r' :: '\n' :: rest => [] :: readLines rest
  | '\r' :: rest => [] :: readLines rest
  | c :: rest =>
      match readLines rest with
      | [] => [[c]]
      | line :: lines => (c :: line) :: lines

/-- A character that ends a line. -/
def isLineBreak (c : Char) : Bool := c = '\n' || c = '\r'

/-- A text without line breaks, by looking at its characters. -/
theorem isLineBreak_text {text : List Char} (h : (text.all fun c => !isLineBreak c) = true) :
    ∀ c ∈ text, isLineBreak c = false := by
  simpa using h

/-- `String.Split` at blanks. -/
def split (text : List Char) : List (List Char) := text.splitOn ' '

/-- `String.Split` at blanks with `StringSplitOptions.RemoveEmptyEntries`. -/
def splitRemoveEmpty (text : List Char) : List (List Char) :=
  (split text).filter fun w => !w.isEmpty

/-- The white space `String.Trim` removes. -/
def isWhiteSpace (c : Char) : Bool :=
  isWhite c || c.toNat ∈ [0x85, 0xA0, 0x1680, 0x2028, 0x2029, 0x202F, 0x205F, 0x3000] ||
    (0x2000 ≤ c.toNat && c.toNat ≤ 0x200A)

theorem isWhiteSpace_of_digit {c : Char} (h : (digitValue c).isSome = true) :
    isWhiteSpace c = false := by
  have hrange := range_of_digit h
  simp [isWhiteSpace, isWhite]
  omega

theorem isWhite_of_digit {c : Char} (h : (digitValue c).isSome = true) : isWhite c = false := by
  have hwhite := isWhiteSpace_of_digit h
  rw [isWhiteSpace, Bool.or_assoc, Bool.or_eq_false_iff] at hwhite
  exact hwhite.1

/-- `String.Trim`. -/
def trim (text : List Char) : List Char :=
  ((text.dropWhile isWhiteSpace).reverse.dropWhile isWhiteSpace).reverse

theorem trim_of_none {text : List Char} (h : ∀ c ∈ text, isWhiteSpace c = false) :
    trim text = text := by
  rw [trim, dropWhile_of_none h, dropWhile_of_none (by simpa using h), List.reverse_reverse]

/-- A text that neither begins nor ends with white space. -/
theorem trim_of_ends {text front back : List Char} {c d : Char} (hfront : text = c :: back)
    (hc : isWhiteSpace c = false) (hback : text = front ++ [d]) (hd : isWhiteSpace d = false) :
    trim text = text := by
  have hleft : text.dropWhile isWhiteSpace = text := by
    rw [hfront, List.dropWhile_cons, hc]
    rfl
  have hright : text.reverse.dropWhile isWhiteSpace = text.reverse := by
    rw [hback, List.reverse_append, List.reverse_singleton, List.singleton_append,
      List.dropWhile_cons, hd]
    rfl
  rw [trim, hleft, hright, List.reverse_reverse]

/-- `String.ToLower`, on the letters it changes into ASCII letters. -/
def toLower (text : List Char) : List Char := text.map Char.toLower

theorem readLines_cons {c : Char} (h : isLineBreak c = false) (rest : List Char) :
    readLines (c :: rest) =
      match readLines rest with
      | [] => [[c]]
      | line :: lines => (c :: line) :: lines := by
  have hn : c ≠ '\n' := by
    rintro rfl
    cases h
  have hr : c ≠ '\r' := by
    rintro rfl
    cases h
  rw [readLines.eq_def]
  split <;> simp_all

/-- The text behind the first line break. -/
def behindFirstLine : List Char → List Char
  | [] => []
  | '\n' :: rest => rest
  | '\r' :: '\n' :: rest => rest
  | '\r' :: rest => rest
  | _ :: rest => behindFirstLine rest

theorem behindFirstLine_cons {c : Char} (h : isLineBreak c = false) (rest : List Char) :
    behindFirstLine (c :: rest) = behindFirstLine rest := by
  have hn : c ≠ '\n' := by
    rintro rfl
    cases h
  have hr : c ≠ '\r' := by
    rintro rfl
    cases h
  rw [behindFirstLine.eq_def]
  split <;> simp_all

theorem behindFirstLine_append {front : List Char} (h : ∀ c ∈ front, isLineBreak c = false)
    (rest : List Char) : behindFirstLine (front ++ rest) = behindFirstLine rest := by
  induction front with
  | nil => rfl
  | cons c front ih =>
      rw [List.forall_mem_cons] at h
      rw [List.cons_append, behindFirstLine_cons h.1, ih h.2]

/-- A text that is not empty is its first line and the lines behind it. -/
theorem readLines_first (text : List Char) (hne : text ≠ []) :
    ∃ line, readLines text = line :: readLines (behindFirstLine text) := by
  fun_induction behindFirstLine text with
  | case1 => exact absurd rfl hne
  | case2 rest => exact ⟨[], rfl⟩
  | case3 rest => exact ⟨[], rfl⟩
  | case4 rest h =>
      refine ⟨[], ?_⟩
      rw [readLines]
      exact h
  | case5 c rest hn hrn hr ih =>
      have hc : isLineBreak c = false := by
        simp only [isLineBreak, Bool.or_eq_false_iff, decide_eq_false_iff_not]
        exact ⟨hn, hr⟩
      rw [readLines_cons hc]
      cases rest with
      | nil => exact ⟨[c], rfl⟩
      | cons d rest =>
          obtain ⟨line, hline⟩ := ih (List.cons_ne_nil _ _)
          exact ⟨c :: line, by rw [hline]⟩

/-- The first line begins with what stands in front of the first line break. -/
theorem readLines_append {front : List Char} (h : ∀ c ∈ front, isLineBreak c = false)
    (rest : List Char) (hrest : rest ≠ []) :
    ∃ tail, readLines (front ++ rest) = (front ++ tail) :: readLines (behindFirstLine rest) := by
  induction front with
  | nil => exact readLines_first rest hrest
  | cons c front ih =>
      rw [List.forall_mem_cons] at h
      obtain ⟨tail, htail⟩ := ih h.2
      refine ⟨tail, ?_⟩
      rw [List.cons_append, readLines_cons h.1, htail]
      rfl

/-- A text without line breaks and a line feed behind it are one line. -/
theorem readLines_line {line : List Char} (h : ∀ c ∈ line, isLineBreak c = false)
    (rest : List Char) : readLines (line ++ '\n' :: rest) = line :: readLines rest := by
  induction line with
  | nil => rfl
  | cons c line ih =>
      rw [List.forall_mem_cons] at h
      rw [List.cons_append, readLines_cons h.1, ih h.2]

end InMemoryFuzzing.Platform.DotNet

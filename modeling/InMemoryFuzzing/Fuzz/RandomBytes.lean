import InMemoryFuzzing.Base.Text
import InMemoryFuzzing.DataLog.ReplayLog

/-!
# `RandomByteGenerator`

Random bytes of a type, in arrays whose lengths follow a scheme. The schemes `increase` and
`decrease` compute a length from the one before in 32 bits, with a remainder that has the sign of
the dividend.
-/

namespace InMemoryFuzzing.Fuzz

open Base Platform DotNet DataLog

/-- What the generators raise. -/
inductive GeneratorException
  | notImplemented (message : String)
  | divideByZero
  /-- An array of negative length. -/
  | overflow
  | indexOutOfRange
  /-- `Random.Next` with a minimum above the maximum. -/
  | argumentOutOfRange
  deriving DecidableEq, Repr

/-- `Random`: its numbers, one after the other, each one in the range it is drawn from. -/
structure RandomSource where
  number : Nat → Int → Int → Int
  le_number : ∀ i {a b : Int}, a < b → a ≤ number i a b
  number_lt : ∀ i {a b : Int}, a < b → number i a b < b
  byte : Nat → UInt8

/-- `%`. -/
def remainder (x y : Int) : Except GeneratorException Int :=
  if y = 0 then .error .divideByZero else .ok (x.tmod y)

/-! ## `IDataGeneratorLenType` -/

inductive LenType
  /-- `RandomDataGeneratorLenType`, with the numbers it has drawn. -/
  | random (minlen maxlen : Int) (r : RandomSource) (drawn : Nat)
  | increase (minlen maxlen step current : Int)
  | decrease (minlen maxlen step current : Int)

namespace LenType

/-- `DataGeneratorLenTypeFactory.Create`. -/
def create (r : RandomSource) (minlen maxlen : Int) (lentypeSpecifier : Option (List Char)) :
    Except GeneratorException LenType :=
  let lentypeSpecifier := lentypeSpecifier.getD "random".toList
  let unsupported := .error (.notImplemented ("Specified datagenerator len type '" ++
    String.ofList lentypeSpecifier ++ "' not supported"))
  match cutAt '|' lentypeSpecifier with
  | none =>
      if lentypeSpecifier = "random".toList then .ok (.random minlen maxlen r 0) else unsupported
  | some (name, arg) =>
      if name = "random".toList then .ok (.random minlen maxlen r 0)
      else if name = "increase".toList then
        match intTryParse arg with
        | some arg1 => .ok (.increase minlen maxlen arg1 (-1))
        | none => unsupported
      else if name = "decrease".toList then
        match intTryParse arg with
        | some arg1 => .ok (.decrease minlen maxlen arg1 maxlen)
        | none => unsupported
      else unsupported

/-- `NextLength`. -/
def nextLength : LenType → Except GeneratorException (Int × LenType)
  | .random minlen maxlen r drawn =>
      if maxlen < minlen then .error .argumentOutOfRange
      else if minlen = maxlen then .ok (minlen, .random minlen maxlen r (drawn + 1))
      else .ok (r.number drawn minlen maxlen, .random minlen maxlen r (drawn + 1))
  | .increase minlen maxlen step current => do
      let current ← remainder (castInt32 (current + step)) maxlen
      let current := if current < minlen then minlen else current
      .ok (current, .increase minlen maxlen step current)
  | .decrease minlen maxlen step current => do
      let current ← remainder (castInt32 (current - step)) (castInt32 (maxlen - minlen))
      let current := castInt32 (current + minlen)
      .ok (current, .decrease minlen maxlen step current)

end LenType

/-! ## `RandomByteGenerator` -/

inductive ByteType
  | all
  | printableASCII
  | printableASCIINullTerminated
  | allNullTerminated
  deriving DecidableEq, Repr

structure RandomByteGenerator where
  byteType : ByteType
  /-- The array that is filled again and again, if all lengths are the same. -/
  buffer : Option (List UInt8)
  r : RandomSource
  /-- How many numbers have been drawn. -/
  drawn : Nat
  logger : Option DataGeneratorLogger
  lenType : LenType

/-- `new byte[length]`. -/
def newBytes (length : Int) : Except GeneratorException (List UInt8) :=
  if length < 0 then .error .overflow else .ok (List.replicate length.toNat 0)

/-- `data[data.Length - 1] = 0`. -/
def terminate (data : List UInt8) : Except GeneratorException (List UInt8) :=
  if data.length = 0 then .error .indexOutOfRange else .ok (data.set (data.length - 1) 0)

/-- The loop that puts a number from a range into each of the first places. -/
def RandomSource.fill (r : RandomSource) (drawn : Nat) (minValue maxValue : Int) (data : List UInt8)
    (count : Nat) : List UInt8 :=
  (List.range count).map (fun i => UInt8.ofNat (r.number (drawn + i) minValue maxValue).toNat) ++
    data.drop count

namespace RandomByteGenerator

/-- `Init`, with the scheme by its name. -/
def init (r lenSource : RandomSource) (logger : Option DataGeneratorLogger) (minLen maxLen : Int)
    (byteType : ByteType) (lenType : Option (List Char)) :
    Except GeneratorException RandomByteGenerator := do
  let buffer ← if minLen = maxLen then (newBytes minLen).map some else .ok none
  let lenType ← LenType.create lenSource minLen maxLen lenType
  .ok ⟨byteType, buffer, r, 0, logger, lenType⟩

/-- `GenerateBytes`: the bytes, and how many numbers have been drawn then. -/
def generateBytes (g : RandomByteGenerator) (data : List UInt8) :
    Except GeneratorException (List UInt8 × Nat) :=
  match g.byteType with
  | .all =>
      .ok ((List.range data.length).map (fun i => g.r.byte (g.drawn + i)), g.drawn + data.length)
  | .printableASCII =>
      .ok (g.r.fill g.drawn 0x21 0x7e data data.length, g.drawn + data.length)
  | .printableASCIINullTerminated => do
      let data ← terminate (g.r.fill g.drawn 0x21 0x7e data data.length)
      .ok (data, g.drawn + data.length)
  | .allNullTerminated => do
      let data ← terminate (g.r.fill g.drawn 0x01 0xff data (data.length - 1))
      .ok (data, g.drawn + (data.length - 1))

/-- `LogData` of the logger, if there is one. -/
def log (g : RandomByteGenerator) (fs : FileSystem) (data : List UInt8) :
    RandomByteGenerator × FileSystem :=
  match g.logger with
  | none => (g, fs)
  | some logger =>
      let logged := logger.logData fs data
      ({ g with logger := some logged.1 }, logged.2)

/-- `GenerateData`. -/
def generateData (g : RandomByteGenerator) (fs : FileSystem) :
    Except GeneratorException (List UInt8 × RandomByteGenerator × FileSystem) := do
  match g.buffer with
  | some buffer =>
      let (buffer, drawn) ← g.generateBytes buffer
      .ok (buffer, ({ g with buffer := some buffer, drawn := drawn } : RandomByteGenerator).log fs
        buffer)
  | none =>
      let (byteLen, lenType) ← g.lenType.nextLength
      let buffer ← newBytes byteLen
      let (buffer, drawn) ← g.generateBytes buffer
      .ok (buffer, ({ g with lenType := lenType, drawn := drawn } : RandomByteGenerator).log fs
        buffer)

end RandomByteGenerator

end InMemoryFuzzing.Fuzz

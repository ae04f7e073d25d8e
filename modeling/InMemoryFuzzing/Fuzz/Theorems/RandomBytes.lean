import InMemoryFuzzing.Fuzz.RandomBytes
import Mathlib.Algebra.Order.Group.Int
import Mathlib.Data.Int.GCD
import Mathlib.Data.Nat.ModEq
import Mathlib.Logic.Function.Iterate

/-!
# What the generator of random bytes returns

`generates_iff`: an array of a length in range and of the type for every call. The lengths follow
from the scheme alone, so the condition is one on the iterates of `Scheme.next`
(`meets_iff_lengths`).

* `increase` stays in range, but can come to the length 0, where there is no last byte for the zero;
* `decrease` goes below the minimum as soon as the step is larger than the length before and the
  difference is not a multiple of the range.
-/

namespace InMemoryFuzzing.Fuzz

open Base Platform DotNet DataLog

/-! ## What is to be returned -/

/-- The arguments of a scheme. -/
structure LengthArgs where
  minlen : Int
  maxlen : Int
  step : Int
  nonneg : 0 ≤ minlen
  less : minlen < maxlen
  maxlen_lt : maxlen < 2 ^ 31
  positive : 1 ≤ step
  step_lt : step < 2 ^ 31

inductive Scheme
  | increase
  | decrease
  deriving DecidableEq, Repr

/-- `increase|<step>` or `decrease|<step>`. -/
def Scheme.specifier (s : Scheme) (step : Int) : List Char :=
  (match s with
    | .increase => "increase".toList
    | .decrease => "decrease".toList) ++ '|' :: (toString step).toList

namespace ByteType

/-- The types whose last byte is 0. -/
def nullTerminated : ByteType → Bool
  | .all | .printableASCII => false
  | .printableASCIINullTerminated | .allNullTerminated => true

/-- A byte from `0x21` to `0x7e`. -/
def Printable (b : UInt8) : Prop := 0x21 ≤ b.toNat ∧ b.toNat ≤ 0x7e

/-- The bytes are of the type. -/
def Matches : ByteType → List UInt8 → Prop
  | .all, _ => True
  | .printableASCII, data => ∀ b ∈ data, Printable b
  | .printableASCIINullTerminated, data =>
      ∃ front, data = front ++ [0] ∧ ∀ b ∈ front, Printable b ∧ b ≠ 0
  | .allNullTerminated, data => ∃ front, data = front ++ [0] ∧ ∀ b ∈ front, b ≠ 0

end ByteType

/-- The next calls return, and each array is as long as it may be and of the type. -/
def Meets (a : LengthArgs) : Nat → RandomByteGenerator → FileSystem → Prop
  | 0, _, _ => True
  | calls + 1, g, fs => ∃ data g' fs', g.generateData fs = .ok (data, g', fs') ∧
      (a.minlen ≤ data.length ∧ data.length ≤ a.maxlen) ∧ g.byteType.Matches data ∧
        Meets a calls g' fs'

/-- A generator is set up, and meets its contract for any number of calls. -/
def Generates (a : LengthArgs) (s : Scheme) (byteType : ByteType) (r lenSource : RandomSource)
    (logger : Option DataGeneratorLogger) (fs : FileSystem) : Prop :=
  ∃ g, RandomByteGenerator.init r lenSource logger a.minlen a.maxlen byteType
      (some (s.specifier a.step)) = .ok g ∧ ∀ calls, Meets a calls g fs

/-- The condition on the arguments. -/
def Suitable (a : LengthArgs) (byteType : ByteType) : Scheme → Prop
  | .increase => byteType.nullTerminated = false ∨ 1 ≤ a.minlen ∨
      (Int.gcd a.step a.maxlen ≠ 1 ∧ a.maxlen + a.step ≤ 2 ^ 31)
  | .decrease => (a.step ≤ a.minlen ∨ a.maxlen - a.minlen ∣ a.step - a.minlen) ∧
      (byteType.nullTerminated = true → 1 ≤ a.minlen)

/-! ## The bytes -/

theorem mem_fill {r : RandomSource} {drawn count : Nat} {lo hi : Int} {data : List UInt8} {b : UInt8}
    (hlo : 0 ≤ lo) (hlt : lo < hi) (hhi : hi ≤ 2 ^ 8)
    (h : b ∈ (r.fill drawn lo hi data count).take count) : lo ≤ b.toNat ∧ b.toNat < hi := by
  rw [RandomSource.fill, List.take_left' (by simp), List.mem_map] at h
  obtain ⟨i, -, rfl⟩ := h
  have hle := r.le_number (drawn + i) hlt
  have hnumber := r.number_lt (drawn + i) hlt
  rw [UInt8.toNat_ofNat']
  omega

theorem fill_length (r : RandomSource) (drawn : Nat) (lo hi : Int) {data : List UInt8} {count : Nat}
    (h : count ≤ data.length) : (r.fill drawn lo hi data count).length = data.length := by
  simp [RandomSource.fill]
  omega

/-- The last byte becomes 0. -/
theorem terminate_eq {data : List UInt8} {n : Nat} (h : data.length = n + 1) :
    terminate data = .ok (data.take n ++ [0]) := by
  have hlast : data.drop (n + 1) = [] := List.drop_eq_nil_of_le h.le
  rw [terminate, if_neg (by omega), h, Nat.add_sub_cancel,
    List.set_eq_take_append_cons_drop, if_pos (by omega), hlast]

namespace RandomByteGenerator

/-- An array is filled with bytes of the type, unless there is no place for the zero. -/
theorem generateBytes_ok (g : RandomByteGenerator) {data : List UInt8}
    (h : g.byteType.nullTerminated = true → data.length ≠ 0) :
    ∃ bytes drawn, g.generateBytes data = .ok (bytes, drawn) ∧ bytes.length = data.length ∧
      g.byteType.Matches bytes := by
  rw [generateBytes]
  cases htype : g.byteType with
  | all => exact ⟨_, _, rfl, by simp, trivial⟩
  | printableASCII =>
      have hlength := fill_length g.r g.drawn 0x21 0x7e (Nat.le_refl data.length)
      refine ⟨_, _, rfl, hlength, ?_⟩
      intro b hb
      rw [← List.take_of_length_le hlength.le] at hb
      have hrange := mem_fill (by norm_num) (by norm_num) (by norm_num) hb
      exact ⟨by omega, by omega⟩
  | printableASCIINullTerminated =>
      rw [htype] at h
      obtain ⟨n, hn⟩ := Nat.exists_eq_succ_of_ne_zero (h rfl)
      have hlength := fill_length g.r g.drawn 0x21 0x7e (Nat.le_refl data.length)
      simp only [terminate_eq (hlength.trans hn)]
      refine ⟨_, _, rfl, ?_, _, rfl, ?_⟩
      · rw [List.length_append, List.length_take, hlength, hn]
        simp
      · intro b hb
        rw [hn] at hb
        have hrange := mem_fill (by norm_num) (by norm_num) (by norm_num)
          (List.take_subset_take_left _ (Nat.le_succ n) hb)
        refine ⟨⟨by omega, by omega⟩, ?_⟩
        rintro rfl
        simp at hrange
  | allNullTerminated =>
      rw [htype] at h
      obtain ⟨n, hn⟩ := Nat.exists_eq_succ_of_ne_zero (h rfl)
      have hlength := fill_length g.r g.drawn 0x01 0xff (Nat.sub_le data.length 1)
      simp only [terminate_eq (hlength.trans hn)]
      refine ⟨_, _, rfl, ?_, _, rfl, ?_⟩
      · rw [List.length_append, List.length_take, hlength, hn]
        simp
      · intro b hb
        rw [hn, Nat.succ_sub_one] at hb
        have hrange := mem_fill (by norm_num) (by norm_num) (by norm_num) hb
        rintro rfl
        simp at hrange

/-- In an empty array there is no place for the zero. -/
theorem generateBytes_empty (g : RandomByteGenerator) (h : g.byteType.nullTerminated = true) :
    g.generateBytes [] = .error .indexOutOfRange := by
  rw [generateBytes]
  cases htype : g.byteType with
  | all => simp [htype, ByteType.nullTerminated] at h
  | printableASCII => simp [htype, ByteType.nullTerminated] at h
  | printableASCIINullTerminated => rfl
  | allNullTerminated => rfl

end RandomByteGenerator

/-! ## The lengths -/

namespace Scheme

/-- What a scheme begins with. -/
def start (a : LengthArgs) : Scheme → Int
  | .increase => -1
  | .decrease => a.maxlen

/-- The length behind a length. -/
def next (a : LengthArgs) : Scheme → Int → Int
  | .increase, current => max a.minlen ((castInt32 (current + a.step)).tmod a.maxlen)
  | .decrease, current =>
      castInt32 ((castInt32 (current - a.step)).tmod (a.maxlen - a.minlen) + a.minlen)

def lenType (a : LengthArgs) : Scheme → Int → LenType
  | .increase, current => .increase a.minlen a.maxlen a.step current
  | .decrease, current => .decrease a.minlen a.maxlen a.step current

/-- The step is read back from the name of the scheme. -/
theorem create_specifier (a : LengthArgs) (s : Scheme) (r : RandomSource) :
    LenType.create r a.minlen a.maxlen (some (s.specifier a.step)) =
      .ok (s.lenType a (s.start a)) := by
  have hpositive := a.positive
  have hlt := a.step_lt
  have hparse : intTryParse (toString a.step).toList = some a.step := by
    rw [intTryParse, parseInteger_toString, Option.filter_some, if_pos]
    simp
    omega
  cases s with
  | increase =>
      have hcut : cutAt '|' (specifier .increase a.step) =
          some ("increase".toList, (toString a.step).toList) := cutAt_append (by decide) _
      simp only [LenType.create, Option.getD_some, hcut, hparse]
      rfl
  | decrease =>
      have hcut : cutAt '|' (specifier .decrease a.step) =
          some ("decrease".toList, (toString a.step).toList) := cutAt_append (by decide) _
      simp only [LenType.create, Option.getD_some, hcut, hparse]
      rfl

theorem nextLength_eq (a : LengthArgs) (s : Scheme) (current : Int) :
    (s.lenType a current).nextLength = .ok (s.next a current, s.lenType a (s.next a current)) := by
  have hnonneg := a.nonneg
  have hless := a.less
  have hmax := a.maxlen_lt
  cases s with
  | increase =>
      have hmaxlen : a.maxlen ≠ 0 := by omega
      have hclamp : ∀ n : Int, (if n < a.minlen then a.minlen else n) = max a.minlen n := by
        intro n
        split <;> omega
      simp only [lenType, LenType.nextLength, remainder, if_neg hmaxlen, next, ← hclamp]
      rfl
  | decrease =>
      have hrange : castInt32 (a.maxlen - a.minlen) = a.maxlen - a.minlen :=
        castInt32_of_int (by omega) (by omega)
      have hne : a.maxlen - a.minlen ≠ 0 := by omega
      simp only [lenType, LenType.nextLength, remainder, hrange, if_neg hne, next]
      rfl

end Scheme

/-- A length that a type may have. -/
def GoodLength (a : LengthArgs) (byteType : ByteType) (n : Int) : Prop :=
  a.minlen ≤ n ∧ n ≤ a.maxlen ∧ (byteType.nullTerminated = true → n ≠ 0)

/-- A generator in front of a call: nothing but the length matters. -/
structure Ready (a : LengthArgs) (s : Scheme) (byteType : ByteType) (current : Int)
    (g : RandomByteGenerator) : Prop where
  byteType : g.byteType = byteType
  buffer : g.buffer = none
  lenType : g.lenType = s.lenType a current

variable {a : LengthArgs} {s : Scheme} {byteType : ByteType} {current : Int}
  {g : RandomByteGenerator} {fs : FileSystem}

theorem Ready.log (h : Ready a s byteType current g) (fs : FileSystem) (data : List UInt8) :
    Ready a s byteType current (g.log fs data).1 := by
  rw [RandomByteGenerator.log]
  split
  · exact h
  · exact ⟨h.byteType, h.buffer, h.lenType⟩

theorem Ready.generateData_eq (h : Ready a s byteType current g) (fs : FileSystem) :
    g.generateData fs = (do
      let buffer ← newBytes (s.next a current)
      let (buffer, drawn) ← g.generateBytes buffer
      .ok (buffer, ({ g with lenType := s.lenType a (s.next a current), drawn := drawn } :
        RandomByteGenerator).log fs buffer)) := by
  rw [RandomByteGenerator.generateData, h.buffer]
  simp only [h.lenType, s.nextLength_eq]
  rfl

/-- A call returns if there is an array of that length, with a place for the zero. -/
theorem Ready.generateData_ok (h : Ready a s byteType current g) (hlength : 0 ≤ s.next a current)
    (hzero : byteType.nullTerminated = true → s.next a current ≠ 0) (fs : FileSystem) :
    ∃ data g' fs', g.generateData fs = .ok (data, g', fs') ∧
      (data.length : Int) = s.next a current ∧ byteType.Matches data ∧
        Ready a s byteType (s.next a current) g' := by
  have hbuffer : (List.replicate (s.next a current).toNat (0 : UInt8)).length =
      (s.next a current).toNat := List.length_replicate
  have hplace : g.byteType.nullTerminated = true →
      (List.replicate (s.next a current).toNat (0 : UInt8)).length ≠ 0 := by
    intro hnull
    have hne := hzero (by rwa [← h.byteType])
    omega
  obtain ⟨bytes, drawn, hbytes, hsame, hmatches⟩ := g.generateBytes_ok hplace
  have hnew : newBytes (s.next a current) = .ok (List.replicate (s.next a current).toNat 0) :=
    if_neg (by omega)
  have hready : Ready a s byteType (s.next a current)
      { g with lenType := s.lenType a (s.next a current), drawn := drawn } :=
    ⟨h.byteType, h.buffer, rfl⟩
  have hdata : g.generateData fs = .ok (bytes, ({ g with
      lenType := s.lenType a (s.next a current), drawn := drawn } : RandomByteGenerator).log fs
        bytes) := by
    rw [h.generateData_eq fs, hnew]
    simp only [bind, Except.bind, hbytes]
  exact ⟨bytes, _, _, hdata, by omega, by rwa [← h.byteType], hready.log fs bytes⟩

/-- A call with another length raises, at the array or at its last byte. -/
theorem Ready.generateData_raises (h : Ready a s byteType current g)
    (hbad : s.next a current < 0 ∨ byteType.nullTerminated = true ∧ s.next a current = 0)
    (fs : FileSystem) : ∃ e, g.generateData fs = .error e := by
  rw [h.generateData_eq fs]
  rcases hbad with hneg | ⟨hnull, hzero⟩
  · exact ⟨.overflow, by rw [newBytes, if_pos hneg]; rfl⟩
  · have hempty := g.generateBytes_empty (by rwa [h.byteType])
    refine ⟨.indexOutOfRange, ?_⟩
    rw [hzero]
    simp only [newBytes, bind, Except.bind]
    simp [hempty]

/-- One call more. -/
theorem Ready.meets_succ (h : Ready a s byteType current g) (calls : Nat) (fs : FileSystem) :
    Meets a (calls + 1) g fs ↔ GoodLength a byteType (s.next a current) ∧
      ∃ g' fs', (∃ data, g.generateData fs = .ok (data, g', fs')) ∧
        Ready a s byteType (s.next a current) g' ∧ Meets a calls g' fs' := by
  have hnonneg := a.nonneg
  by_cases hbad : s.next a current < 0 ∨ byteType.nullTerminated = true ∧ s.next a current = 0
  · obtain ⟨e, he⟩ := h.generateData_raises hbad fs
    constructor
    · rintro ⟨data, g', fs', hok, -⟩
      rw [he] at hok
      cases hok
    · rintro ⟨-, g', fs', ⟨data, hok⟩, -⟩
      rw [he] at hok
      cases hok
  · push Not at hbad
    obtain ⟨data, g', fs', hok, hlength, hmatches, hready⟩ :=
      h.generateData_ok hbad.1 hbad.2 fs
    constructor
    · rintro ⟨data', g'', fs'', hok', hrange, -, hmeets⟩
      cases hok.symm.trans hok'
      exact ⟨⟨by omega, by omega, hbad.2⟩, g', fs', ⟨data, hok⟩, hready, hmeets⟩
    · rintro ⟨hgood, g'', fs'', ⟨data', hok'⟩, -, hmeets⟩
      cases hok.symm.trans hok'
      obtain ⟨hmin, hmax, -⟩ := hgood
      exact ⟨data, g', fs', hok, ⟨by omega, by omega⟩, by rwa [h.byteType], hmeets⟩

/-- The contract is met if and only if every length is good. -/
theorem Ready.meets_iff_lengths (h : Ready a s byteType current g) (fs : FileSystem) :
    (∀ calls, Meets a calls g fs) ↔
      ∀ k, GoodLength a byteType ((s.next a)^[k + 1] current) := by
  constructor
  · intro hmeets k
    induction k generalizing current g fs with
    | zero => exact ((h.meets_succ 0 fs).mp (hmeets 1)).1
    | succ k ih =>
        obtain ⟨-, g', fs', ⟨data, hok⟩, hready, -⟩ := (h.meets_succ 0 fs).mp (hmeets 1)
        refine ih hready fs' ?_
        intro calls
        obtain ⟨-, g'', fs'', ⟨data', hok'⟩, -, hrest⟩ := (h.meets_succ calls fs).mp (hmeets _)
        cases hok.symm.trans hok'
        exact hrest
  · intro hgood calls
    induction calls generalizing current g fs with
    | zero => trivial
    | succ calls ih =>
        have hfirst := hgood 0
        obtain ⟨data, g', fs', hok, -, -, hready⟩ :=
          h.generateData_ok (a.nonneg.trans hfirst.1) hfirst.2.2 fs
        refine (h.meets_succ calls fs).mpr ⟨hfirst, g', fs', ⟨data, hok⟩, hready, ?_⟩
        exact ih hready fs' fun k => hgood (k + 1)

/-! ## `increase` -/

/-- Without an overflow the next length is the sum modulo the maximum. -/
theorem increase_next (hlow : -1 ≤ current) (hsum : current + a.step < 2 ^ 31) :
    Scheme.increase.next a current = max a.minlen ((current + a.step) % a.maxlen) := by
  have hpositive := a.positive
  rw [Scheme.next, castInt32_of_int (by omega) hsum, Int.tmod_eq_emod_of_nonneg (by omega)]

/-- An overflow leads to the minimum. -/
theorem increase_overflow (hhigh : current < a.maxlen) (hsum : 2 ^ 31 ≤ current + a.step) :
    Scheme.increase.next a current = a.minlen := by
  have hnonneg := a.nonneg
  have hmax := a.maxlen_lt
  have hstep := a.step_lt
  have hcast : castInt32 (current + a.step) = current + a.step - 2 ^ 32 := by
    rw [← castInt32_of_int (v := current + a.step - 2 ^ 32) (by omega) (by omega)]
    exact (Int.sub_bmod_right (current + a.step) (2 ^ 32)).symm
  have hneg : (current + a.step - 2 ^ 32).tmod a.maxlen ≤ 0 := by
    rw [← neg_neg (current + a.step - 2 ^ 32), Int.neg_tmod]
    have h := Int.tmod_nonneg a.maxlen (a := -(current + a.step - 2 ^ 32)) (by omega)
    omega
  rw [Scheme.next, hcast, max_eq_left (hneg.trans hnonneg)]

/-- The next length is in range. -/
theorem increase_range (hlow : -1 ≤ current) (hhigh : current < a.maxlen) :
    a.minlen ≤ Scheme.increase.next a current ∧ Scheme.increase.next a current < a.maxlen := by
  have hless := a.less
  have hnonneg := a.nonneg
  by_cases hsum : current + a.step < 2 ^ 31
  · rw [increase_next hlow hsum]
    have hmod := Int.emod_lt_of_pos (current + a.step) (b := a.maxlen) (by omega)
    exact ⟨le_max_left _ _, max_lt hless hmod⟩
  · rw [increase_overflow hhigh (by omega)]
    exact ⟨le_refl _, hless⟩

theorem increase_between (a : LengthArgs) (k : Nat) :
    a.minlen ≤ (Scheme.increase.next a)^[k + 1] (-1) ∧
      (Scheme.increase.next a)^[k + 1] (-1) < a.maxlen := by
  have hnonneg := a.nonneg
  have hless := a.less
  have hstep : Set.MapsTo (Scheme.increase.next a) (Set.Ico (-1) a.maxlen)
      (Set.Ico (-1) a.maxlen) := by
    rintro n ⟨hlow, hhigh⟩
    have hnext := increase_range hlow hhigh
    exact ⟨by omega, hnext.2⟩
  have hbefore := hstep.iterate k (⟨le_refl _, by omega⟩ : (-1) ∈ Set.Ico (-1) a.maxlen)
  rw [Function.iterate_succ_apply']
  exact increase_range hbefore.1 hbefore.2

/-- The first length that is 0, or the closed form. -/
theorem increase_zero_or (hmin : a.minlen = 0) (k : Nat) :
    (∃ j, (Scheme.increase.next a)^[j + 1] (-1) = 0) ∨
      (Scheme.increase.next a)^[k + 1] (-1) = (a.step * (k + 1 : Nat) - 1) % a.maxlen := by
  have hless := a.less
  have hpositive := a.positive
  have hstep := a.step_lt
  induction k with
  | zero =>
      right
      have hmod := Int.emod_nonneg (-1 + a.step) (b := a.maxlen) (by omega)
      have hsum : a.step * ((0 + 1 : Nat) : Int) - 1 = -1 + a.step := by
        push_cast
        ring
      rw [Function.iterate_one, increase_next (by omega) (by omega), hmin, max_eq_right hmod, hsum]
  | succ k ih =>
      rcases ih with hzero | hclosed
      · exact .inl hzero
      have hlow := Int.emod_nonneg (a.step * (k + 1 : Nat) - 1) (b := a.maxlen) (by omega)
      have hhigh := Int.emod_lt_of_pos (a.step * (k + 1 : Nat) - 1) (b := a.maxlen) (by omega)
      rw [← hclosed] at hlow hhigh
      by_cases hsum : (Scheme.increase.next a)^[k + 1] (-1) + a.step < 2 ^ 31
      · right
        have hmod := Int.emod_nonneg ((Scheme.increase.next a)^[k + 1] (-1) + a.step)
          (b := a.maxlen) (by omega)
        rw [Function.iterate_succ_apply', increase_next (by omega) hsum, hmin, max_eq_right hmod,
          hclosed, Int.emod_add_emod]
        congr 1
        push_cast
        ring
      · left
        refine ⟨k + 1, ?_⟩
        rw [Function.iterate_succ_apply', increase_overflow hhigh (by omega), hmin]

/-- A step that has no divisor in common with the maximum leads to the length 0. -/
theorem increase_zero_of_coprime (hmin : a.minlen = 0) (hgcd : Int.gcd a.step a.maxlen = 1) :
    ∃ j, (Scheme.increase.next a)^[j + 1] (-1) = 0 := by
  have hless := a.less
  have hpositive := a.positive
  obtain ⟨m, -, hm⟩ := Nat.exists_mul_mod_eq_of_coprime (k := a.maxlen.natAbs)
    (n := a.step.natAbs) 1 (by rwa [Nat.Coprime, ← Int.gcd_def]) (by omega)
  have hdvd : a.maxlen ∣ a.step * m - 1 := by
    have h := Nat.modEq_iff_dvd.mp hm.symm
    rw [Nat.cast_mul, Int.natAbs_of_nonneg (by omega), Int.natAbs_of_nonneg (by omega)] at h
    exact h
  rcases increase_zero_or hmin (m + a.maxlen.toNat - 1) with hzero | hclosed
  · exact hzero
  · refine ⟨_, hclosed.trans (Int.emod_eq_zero_of_dvd ?_)⟩
    have hcount : ((m + a.maxlen.toNat - 1 + 1 : Nat) : Int) = m + a.maxlen := by omega
    have hsum : a.step * (m + a.maxlen) - 1 = a.step * m - 1 + a.maxlen * a.step := by ring
    rw [hcount, hsum]
    exact Int.dvd_add hdvd (dvd_mul_right _ _)

/-- So does a step that leads out of the range of `int`. -/
theorem increase_zero_of_overflow (hmin : a.minlen = 0) (hsum : 2 ^ 31 < a.maxlen + a.step) :
    ∃ j, (Scheme.increase.next a)^[j + 1] (-1) = 0 := by
  have hless := a.less
  rcases increase_zero_or hmin (a.maxlen.toNat - 1) with hzero | hclosed
  · exact hzero
  have hlast : (Scheme.increase.next a)^[a.maxlen.toNat - 1 + 1] (-1) = a.maxlen - 1 := by
    have hcount : ((a.maxlen.toNat - 1 + 1 : Nat) : Int) = a.maxlen := by omega
    have hbefore : a.step * a.maxlen - 1 = a.maxlen - 1 + a.maxlen * (a.step - 1) := by ring
    rw [hclosed, hcount, hbefore, Int.add_mul_emod_self_left, Int.emod_eq_of_lt (by omega) (by omega)]
  refine ⟨a.maxlen.toNat - 1 + 1, ?_⟩
  rw [Function.iterate_succ_apply', hlast, increase_overflow (by omega) (by omega), hmin]

/-- With a common divisor and no overflow, the divisor divides the length and one. -/
theorem increase_nonzero (hgcd : Int.gcd a.step a.maxlen ≠ 1) (hsum : a.maxlen + a.step ≤ 2 ^ 31)
    (hmin : a.minlen = 0) (k : Nat) : (Scheme.increase.next a)^[k + 1] (-1) ≠ 0 := by
  have hless := a.less
  have hmaps : Set.MapsTo (Scheme.increase.next a)
      {n | (-1 ≤ n ∧ n < a.maxlen) ∧ (Int.gcd a.step a.maxlen : Int) ∣ n + 1}
      {n | (-1 ≤ n ∧ n < a.maxlen) ∧ (Int.gcd a.step a.maxlen : Int) ∣ n + 1} := by
    rintro n ⟨⟨hlow, hhigh⟩, hdvd⟩
    have hrange := increase_range hlow hhigh
    refine ⟨⟨by omega, hrange.2⟩, ?_⟩
    have hmod := Int.emod_nonneg (n + a.step) (b := a.maxlen) (by omega)
    have hparts : n + a.step - a.maxlen * ((n + a.step) / a.maxlen) + 1 =
        n + 1 + a.step - a.maxlen * ((n + a.step) / a.maxlen) := by ring
    rw [increase_next hlow (by omega), hmin, max_eq_right hmod, Int.emod_def, hparts]
    exact Int.dvd_sub (Int.dvd_add hdvd (Int.gcd_dvd_left ..)) ((Int.gcd_dvd_right ..).mul_right _)
  have hlength := hmaps.iterate (k + 1) (⟨⟨le_refl _, by omega⟩, by simp⟩ :
    (-1 : Int) ∈ {n | (-1 ≤ n ∧ n < a.maxlen) ∧ (Int.gcd a.step a.maxlen : Int) ∣ n + 1})
  intro hzero
  rw [hzero] at hlength
  have hone : (Int.gcd a.step a.maxlen : Int) ∣ (1 : Nat) := hlength.2
  exact hgcd (Nat.dvd_one.mp (Int.natCast_dvd_natCast.mp hone))

theorem increase_iff (a : LengthArgs) (byteType : ByteType) :
    (∀ k, GoodLength a byteType ((Scheme.increase.next a)^[k + 1] (-1))) ↔
      Suitable a byteType .increase := by
  have hnonneg := a.nonneg
  have hless := a.less
  constructor
  · intro hgood
    cases hnull : byteType.nullTerminated with
    | false => exact .inl hnull
    | true =>
        right
        by_cases hmin : 1 ≤ a.minlen
        · exact .inl hmin
        have hzero : ¬∃ j, (Scheme.increase.next a)^[j + 1] (-1) = 0 := by
          rintro ⟨j, hj⟩
          exact (hgood j).2.2 hnull hj
        refine .inr ⟨?_, ?_⟩
        · intro hgcd
          exact hzero (increase_zero_of_coprime (by omega) hgcd)
        · by_contra hsum
          exact hzero (increase_zero_of_overflow (by omega) (by omega))
  · intro hsuitable k
    obtain ⟨hlow, hhigh⟩ := increase_between a k
    refine ⟨hlow, hhigh.le, ?_⟩
    intro hnull
    rcases hsuitable with hother | hmin | ⟨hgcd, hsum⟩
    · rw [hother] at hnull
      cases hnull
    · omega
    · by_cases hmin : a.minlen = 0
      · exact increase_nonzero hgcd hsum hmin k
      · omega

/-! ## `decrease` -/

/-- There is no overflow below. -/
theorem decrease_next (hlow : a.minlen ≤ current) (hhigh : current ≤ a.maxlen) :
    Scheme.decrease.next a current =
      (current - a.step).tmod (a.maxlen - a.minlen) + a.minlen := by
  have hnonneg := a.nonneg
  have hless := a.less
  have hmax := a.maxlen_lt
  have hpositive := a.positive
  have hstep := a.step_lt
  have hmod := Int.tmod_lt_of_pos (current - a.step) (b := a.maxlen - a.minlen) (by omega)
  have hmod' := Int.lt_tmod_of_pos (current - a.step) (b := a.maxlen - a.minlen) (by omega)
  rw [Scheme.next, castInt32_of_int (v := current - a.step) (by omega) (by omega),
    castInt32_of_int (by omega) (by omega)]

/-- From a length that is at least the step the next one is in range, and closer to the minimum. -/
theorem decrease_of_le (hlow : a.minlen ≤ current) (hhigh : current ≤ a.maxlen)
    (hstep : a.step ≤ current) : a.minlen ≤ Scheme.decrease.next a current ∧
      Scheme.decrease.next a current ≤ a.maxlen ∧
        Scheme.decrease.next a current ≤ current - a.step + a.minlen := by
  have hless := a.less
  have hmod := Int.emod_nonneg (current - a.step) (b := a.maxlen - a.minlen) (by omega)
  have hlt := Int.emod_lt_of_pos (current - a.step) (b := a.maxlen - a.minlen) (by omega)
  have hle := mul_nonneg (by omega : 0 ≤ a.maxlen - a.minlen)
    (Int.ediv_nonneg (by omega : 0 ≤ current - a.step) (by omega : 0 ≤ a.maxlen - a.minlen))
  have hparts := Int.mul_ediv_add_emod (current - a.step) (a.maxlen - a.minlen)
  rw [decrease_next hlow hhigh, Int.tmod_eq_emod_of_nonneg (by omega)]
  omega

/-- From a length below the step the next one is the minimum, or below it. -/
theorem decrease_of_lt (hlow : a.minlen ≤ current) (hhigh : current ≤ a.maxlen)
    (hstep : current < a.step) : Scheme.decrease.next a current ≤ a.minlen ∧
      (a.minlen ≤ Scheme.decrease.next a current ↔ a.maxlen - a.minlen ∣ a.step - current) := by
  have hless := a.less
  have hmod := Int.emod_nonneg (a.step - current) (b := a.maxlen - a.minlen) (by omega)
  have hneg : (current - a.step).tmod (a.maxlen - a.minlen) =
      -((a.step - current) % (a.maxlen - a.minlen)) := by
    rw [← neg_sub a.step current, Int.neg_tmod, Int.tmod_eq_emod_of_nonneg (by omega)]
  rw [decrease_next hlow hhigh, hneg, Int.dvd_iff_emod_eq_zero]
  omega

/-- If all lengths are good and the step is larger than the minimum, the range divides the
difference: some length is below the step, the next one is the minimum, and so is the one after. -/
theorem dvd_of_decrease (hstep : a.minlen < a.step)
    (hgood : ∀ k, GoodLength a byteType ((Scheme.decrease.next a)^[k + 1] a.maxlen)) :
    a.maxlen - a.minlen ∣ a.step - a.minlen := by
  have hnonneg := a.nonneg
  have hless := a.less
  have hrange : ∀ k, a.minlen ≤ (Scheme.decrease.next a)^[k] a.maxlen ∧
      (Scheme.decrease.next a)^[k] a.maxlen ≤ a.maxlen
    | 0 => ⟨hless.le, le_refl _⟩
    | k + 1 => ⟨(hgood k).1, (hgood k).2.1⟩
  have hbelow : ∃ k, (Scheme.decrease.next a)^[k] a.maxlen < a.step := by
    by_contra h
    push Not at h
    have hfall : ∀ k : Nat, (Scheme.decrease.next a)^[k] a.maxlen ≤ a.maxlen - k := by
      intro k
      induction k with
      | zero => simp
      | succ k ih =>
          have hnext := decrease_of_le (hrange k).1 (hrange k).2 (h k)
          rw [Function.iterate_succ_apply']
          push_cast
          omega
    have hlast := hfall (a.maxlen.toNat + 1)
    have hlow := (hrange (a.maxlen.toNat + 1)).1
    omega
  obtain ⟨k, hk⟩ := hbelow
  have hfirst := decrease_of_lt (hrange k).1 (hrange k).2 hk
  have hmin : (Scheme.decrease.next a)^[k + 1] a.maxlen = a.minlen := by
    have hlow := (hrange (k + 1)).1
    rw [Function.iterate_succ_apply'] at hlow ⊢
    omega
  have hsecond := (hrange (k + 2)).1
  rw [Function.iterate_succ_apply', hmin] at hsecond
  exact (decrease_of_lt (le_refl _) hless.le hstep).2.mp hsecond

theorem decrease_between_of_le (hstep : a.step ≤ a.minlen) (k : Nat) :
    a.minlen ≤ (Scheme.decrease.next a)^[k] a.maxlen ∧
      (Scheme.decrease.next a)^[k] a.maxlen ≤ a.maxlen := by
  have hmaps : Set.MapsTo (Scheme.decrease.next a) (Set.Icc a.minlen a.maxlen)
      (Set.Icc a.minlen a.maxlen) := by
    rintro n ⟨hlow, hhigh⟩
    have hnext := decrease_of_le hlow hhigh (hstep.trans hlow)
    exact ⟨hnext.1, hnext.2.1⟩
  exact hmaps.iterate k ⟨a.less.le, le_refl _⟩

/-- Where the range divides the difference, every length is the minimum or, at first, the maximum. -/
theorem decrease_between_of_dvd (hdvd : a.maxlen - a.minlen ∣ a.step - a.minlen) (k : Nat) :
    a.minlen ≤ (Scheme.decrease.next a)^[k] a.maxlen ∧
      (Scheme.decrease.next a)^[k] a.maxlen ≤ a.maxlen := by
  have hmaps : Set.MapsTo (Scheme.decrease.next a) {a.minlen, a.maxlen} {a.minlen, a.maxlen} := by
    intro n hn
    have hbetween : (a.minlen ≤ n ∧ n ≤ a.maxlen) ∧ a.maxlen - a.minlen ∣ n - a.minlen := by
      rcases hn with rfl | rfl
      · exact ⟨⟨le_refl _, a.less.le⟩, by rw [sub_self]; exact Int.dvd_zero _⟩
      · exact ⟨⟨a.less.le, le_refl _⟩, Int.dvd_refl _⟩
    have hparts : n - a.step = n - a.minlen - (a.step - a.minlen) := by ring
    have hmod : (n - a.step).tmod (a.maxlen - a.minlen) = 0 :=
      Int.tmod_eq_zero_of_dvd (hparts ▸ Int.dvd_sub hbetween.2 hdvd)
    rw [decrease_next hbetween.1.1 hbetween.1.2, hmod, zero_add]
    exact Set.mem_insert _ _
  rcases hmaps.iterate k (Set.mem_insert_of_mem _ rfl) with hmin | hmax
  · rw [hmin]
    exact ⟨le_refl _, a.less.le⟩
  · rw [Set.mem_singleton_iff.mp hmax]
    exact ⟨a.less.le, le_refl _⟩

theorem decrease_iff (a : LengthArgs) (byteType : ByteType) :
    (∀ k, GoodLength a byteType ((Scheme.decrease.next a)^[k + 1] a.maxlen)) ↔
      Suitable a byteType .decrease := by
  have hnonneg := a.nonneg
  have hpositive := a.positive
  constructor
  · intro hgood
    have hdvd : a.step ≤ a.minlen ∨ a.maxlen - a.minlen ∣ a.step - a.minlen := by
      rcases le_or_gt a.step a.minlen with hle | hlt
      · exact .inl hle
      · exact .inr (dvd_of_decrease hlt hgood)
    refine ⟨hdvd, ?_⟩
    intro hnull
    by_contra hmin
    have hzero : a.minlen = 0 := by omega
    rcases hdvd with hle | hdvd
    · omega
    rw [hzero, sub_zero, sub_zero] at hdvd
    have hmod : (a.maxlen - a.step).tmod a.maxlen = 0 :=
      Int.tmod_eq_zero_of_dvd (Int.dvd_sub (Int.dvd_refl _) hdvd)
    have hfirst : Scheme.decrease.next a a.maxlen = 0 := by
      rw [decrease_next a.less.le (le_refl _), hzero, sub_zero, hmod, add_zero]
    exact (hgood 0).2.2 hnull hfirst
  · rintro ⟨hdvd, hnull⟩ k
    have hbetween : a.minlen ≤ (Scheme.decrease.next a)^[k + 1] a.maxlen ∧
        (Scheme.decrease.next a)^[k + 1] a.maxlen ≤ a.maxlen := by
      rcases hdvd with hle | hdvd
      · exact decrease_between_of_le hle (k + 1)
      · exact decrease_between_of_dvd hdvd (k + 1)
    refine ⟨hbetween.1, hbetween.2, ?_⟩
    intro h
    have hmin := (hnull h).trans hbetween.1
    omega

/-! ## Every generator -/

theorem init_eq (a : LengthArgs) (s : Scheme) (byteType : ByteType) (r lenSource : RandomSource)
    (logger : Option DataGeneratorLogger) :
    RandomByteGenerator.init r lenSource logger a.minlen a.maxlen byteType
      (some (s.specifier a.step)) =
        .ok ⟨byteType, none, r, 0, logger, s.lenType a (s.start a)⟩ := by
  have hne : a.minlen ≠ a.maxlen := a.less.ne
  rw [RandomByteGenerator.init, if_neg hne]
  simp only [bind, Except.bind, s.create_specifier a lenSource]

theorem generates_iff_lengths (a : LengthArgs) (s : Scheme) (byteType : ByteType)
    (r lenSource : RandomSource) (logger : Option DataGeneratorLogger) (fs : FileSystem) :
    Generates a s byteType r lenSource logger fs ↔
      ∀ k, GoodLength a byteType ((s.next a)^[k + 1] (s.start a)) := by
  have hinit := init_eq a s byteType r lenSource logger
  have hready : Ready a s byteType (s.start a)
      ⟨byteType, none, r, 0, logger, s.lenType a (s.start a)⟩ := ⟨rfl, rfl, rfl⟩
  rw [← hready.meets_iff_lengths fs]
  constructor
  · rintro ⟨g, hg, hmeets⟩
    cases hinit.symm.trans hg
    exact hmeets
  · intro hmeets
    exact ⟨_, hinit, hmeets⟩

/-- The calls return what they are to return if and only if the arguments suit the scheme. -/
theorem generates_iff (a : LengthArgs) (s : Scheme) (byteType : ByteType)
    (r lenSource : RandomSource) (logger : Option DataGeneratorLogger) (fs : FileSystem) :
    Generates a s byteType r lenSource logger fs ↔ Suitable a byteType s := by
  rw [generates_iff_lengths]
  cases s with
  | increase => exact increase_iff a byteType
  | decrease => exact decrease_iff a byteType

/-- A source that draws the least number of every range. -/
def lowest : RandomSource where
  number _ a _ := a
  le_number _ _ _ _ := le_refl _
  number_lt _ _ _ h := h
  byte _ := 0

/-- `decrease|60` from 1 to 100. -/
def decreaseSixty : LengthArgs :=
  ⟨1, 100, 60, by norm_num, by norm_num, by norm_num, by norm_num, by norm_num⟩

/-- The lengths are 41 and −18. -/
theorem decrease_60_raises :
    ¬Generates decreaseSixty .decrease .all lowest lowest none fun _ => none := by
  rw [generates_iff_lengths]
  intro h
  have hgood := h 1
  have hlength : (Scheme.decrease.next decreaseSixty)^[2] (Scheme.decrease.start decreaseSixty) = -18 := by
    decide
  rw [hlength] at hgood
  exact absurd hgood.1 (by decide)

end InMemoryFuzzing.Fuzz

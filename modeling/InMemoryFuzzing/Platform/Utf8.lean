import Mathlib.Data.List.Basic

/-!
# `Encoding.UTF8`

A string is a sequence of Unicode scalar values, so it is always encoded exactly. In the other
direction bytes that begin no character are replaced, one by one.
-/

namespace InMemoryFuzzing.Platform.DotNet

/-- `Encoding.UTF8.GetBytes`. -/
def utf8GetBytes (s : String) : List UInt8 := s.toUTF8.toList

/-- The character whose encoding is at the front. -/
def utf8FirstChar (bytes : List UInt8) : Option Char := bytes.toByteArray.utf8DecodeChar? 0

/-- The characters that `Encoding.UTF8` makes of bytes. -/
def utf8GetChars : List UInt8 → List Char
  | [] => []
  | b :: rest =>
      match utf8FirstChar (b :: rest) with
      | some c => c :: utf8GetChars (rest.drop (c.utf8Size - 1))
      | none => '\uFFFD' :: utf8GetChars rest
termination_by bytes => bytes.length

/-- `Encoding.UTF8.GetString`. -/
def utf8GetString (bytes : List UInt8) : String := String.ofList (utf8GetChars bytes)

private theorem toList_loop (bytes : ByteArray) (i : Nat) (r : List UInt8) :
    ByteArray.toList.loop bytes i r = r.reverse ++ bytes.data.toList.drop i := by
  fun_induction ByteArray.toList.loop bytes i r with
  | case1 i r h ih =>
      have hsize : i < bytes.data.toList.length := by simpa using h
      have hget : bytes.get! i = bytes.data.toList[i] := by
        show bytes.data[i]! = _
        rw [getElem!_pos bytes.data i (by simpa using h), Array.getElem_toList]
      rw [ih, List.drop_eq_getElem_cons hsize, hget]
      simp
  | case2 i r h =>
      have hsize : bytes.data.toList.length ≤ i := by simpa using h
      simp [List.drop_eq_nil_of_le hsize]

/-- The encodings of the characters, one behind the other. -/
theorem utf8GetBytes_eq (s : String) : utf8GetBytes s = s.toList.flatMap String.utf8EncodeChar := by
  show ByteArray.toList.loop s.toByteArray 0 [] = _
  rw [toList_loop, ← String.utf8Encode_toList]
  simp [List.utf8Encode]

theorem utf8GetBytes_length (s : String) : (utf8GetBytes s).length = s.utf8ByteSize := by
  show (ByteArray.toList.loop s.toByteArray 0 []).length = s.toByteArray.size
  rw [toList_loop]
  simp

theorem utf8FirstChar_append (c : Char) (rest : List UInt8) :
    utf8FirstChar (String.utf8EncodeChar c ++ rest) = some c := by
  rw [utf8FirstChar, List.toByteArray_append]
  exact ByteArray.utf8DecodeChar?_utf8EncodeChar_append

theorem utf8GetChars_append (c : Char) (rest : List UInt8) :
    utf8GetChars (String.utf8EncodeChar c ++ rest) = c :: utf8GetChars rest := by
  have hfirst := utf8FirstChar_append c rest
  have hlen : (String.utf8EncodeChar c).length = c.utf8Size := String.length_utf8EncodeChar c
  cases hcode : String.utf8EncodeChar c with
  | nil => exact absurd hcode String.utf8EncodeChar_ne_nil
  | cons b more =>
      rw [hcode, List.length_cons] at hlen
      rw [hcode, List.cons_append] at hfirst
      rw [List.cons_append, utf8GetChars, hfirst]
      have hsize : c.utf8Size - 1 = more.length := by omega
      simp [hsize]

/-- A text is what its encoding is decoded to. -/
theorem utf8GetString_getBytes (s : String) : utf8GetString (utf8GetBytes s) = s := by
  have hchars : ∀ cs : List Char, utf8GetChars (cs.flatMap String.utf8EncodeChar) = cs := by
    intro cs
    induction cs with
    | nil => simp [utf8GetChars]
    | cons c cs ih => rw [List.flatMap_cons, utf8GetChars_append, ih]
  rw [utf8GetString, utf8GetBytes_eq, hchars, String.ofList_toList]

/-- The size of a text that repeats one character. -/
theorem utf8GetBytes_replicate_length (n : Nat) (c : Char) :
    (utf8GetBytes (String.ofList (List.replicate n c))).length = n * c.utf8Size := by
  rw [utf8GetBytes_eq, String.toList_ofList]
  induction n with
  | zero => simp
  | succ n ih =>
      rw [List.replicate_succ, List.flatMap_cons, List.length_append, ih,
        String.length_utf8EncodeChar, Nat.succ_mul, Nat.add_comm]

end InMemoryFuzzing.Platform.DotNet

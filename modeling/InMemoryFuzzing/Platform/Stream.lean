import InMemoryFuzzing.Platform.DotNet
import Mathlib.Logic.Function.Basic

/-!
# Streams and files

A `Source` is a stream from which is only read: the bytes from `Position` to
`Length`. `Read` returns as many bytes as asked for, or all that are left.

`FileSystem` is what the modelled code sees of the files: contents by path. The
streams write through; what a `FileStream` buffers is in the file once it is
closed, and the modelled code reads no file that is open for writing.
-/

namespace InMemoryFuzzing.Platform

/-- The unread bytes of a stream. -/
abbrev Source := List UInt8

/-- `Stream.Read (buffer, 0, count)`: the bytes read, and the stream behind them. -/
def Source.read (src : Source) (count : Nat) : List UInt8 × Source :=
  (src.take count, src.drop count)

/-- The contents of the files. -/
abbrev FileSystem := String → Option (List UInt8)

namespace FileSystem

/-- Replace the contents of one file. -/
def set (fs : FileSystem) (path : String) (contents : Option (List UInt8)) : FileSystem :=
  fun p => if p = path then contents else fs p

@[simp] theorem set_self (fs : FileSystem) (path : String) (contents : Option (List UInt8)) :
    fs.set path contents path = contents := if_pos rfl

theorem set_of_ne {p path : String} (h : p ≠ path) (fs : FileSystem)
    (contents : Option (List UInt8)) : fs.set path contents p = fs p := if_neg h

theorem set_set (fs : FileSystem) (path : String) (c d : Option (List UInt8)) :
    (fs.set path c).set path d = fs.set path d := by
  funext p
  by_cases h : p = path
  · rw [h, set_self, set_self]
  · rw [set_of_ne h, set_of_ne h, set_of_ne h]

/-- `File.Exists`. -/
def existsFile (fs : FileSystem) (path : String) : Bool := (fs path).isSome

/-- `File.Delete`. -/
def delete (fs : FileSystem) (path : String) : FileSystem := fs.set path none

/-- A file that is deleted if it exists is gone. -/
theorem delete_existing (fs : FileSystem) (path : String) :
    (if fs.existsFile path then fs.delete path else fs) path = none := by
  by_cases h : fs.existsFile path = true
  · rw [if_pos h, delete, set_self]
  · rw [if_neg h]
    rwa [existsFile, Bool.not_eq_true, Option.isSome_eq_false_iff, Option.isNone_iff_eq_none] at h

theorem set_eq_update (fs : FileSystem) (path : String) (contents : Option (List UInt8)) :
    fs.set path contents = Function.update fs path contents := by
  funext p
  rw [set, Function.update_apply]

end FileSystem

/-- A `FileStream` open for writing. -/
structure FileSink where
  path : String
  position : Nat

/-- `File.OpenWrite`: an existing file is kept, a missing one is created. -/
def FileSystem.openWrite (fs : FileSystem) (path : String) : FileSink × FileSystem :=
  (⟨path, 0⟩, fs.set path (some ((fs path).getD [])))

/-- A file that is deleted if it exists, and opened then, is empty. -/
theorem FileSystem.openWrite_deleted (fs : FileSystem) (path : String) :
    (if fs.existsFile path then fs.delete path else fs).openWrite path =
      (⟨path, 0⟩, fs.set path (some [])) := by
  rw [openWrite, delete_existing, Option.getD_none]
  by_cases h : fs.existsFile path = true
  · rw [if_pos h, delete, set_set]
  · rw [if_neg h]

/-- `Stream.Write`: overwrite from the position on. -/
def FileSink.write (sink : FileSink) (fs : FileSystem) (data : List UInt8) :
    FileSink × FileSystem :=
  let contents := (fs sink.path).getD []
  ({ sink with position := sink.position + data.length },
    fs.set sink.path (some (contents.take sink.position ++ data ++
      contents.drop (sink.position + data.length))))

/-- `File.OpenRead` on a file that exists. -/
def FileSystem.openRead (fs : FileSystem) (path : String) : Option Source := fs path

/-- `Path.Combine` with a file name: on the platforms of the fuzzer the separator
is a slash. -/
def pathCombine (path filename : String) : String :=
  if filename.startsWith "/" then filename
  else if path.isEmpty then filename
  else if path.endsWith "/" then path ++ filename
  else path ++ "/" ++ filename

theorem pathCombine_relative {name : String} (h : name.startsWith "/" = false) (path : String) :
    pathCombine path name = if path.isEmpty then name else
      if path.endsWith "/" then path ++ name else path ++ "/" ++ name := by
  rw [pathCombine, h]
  rfl

theorem pathCombine_relative_injective {path m n : String} (hm : m.startsWith "/" = false)
    (hn : n.startsWith "/" = false) (h : pathCombine path m = pathCombine path n) : m = n := by
  rw [pathCombine_relative hm, pathCombine_relative hn] at h
  by_cases hempty : path.isEmpty = true
  · rw [if_pos hempty, if_pos hempty] at h
    exact h
  · rw [if_neg hempty, if_neg hempty] at h
    by_cases hslash : path.endsWith "/" = true
    · rw [if_pos hslash, if_pos hslash] at h
      exact (String.append_right_inj _).mp h
    · rw [if_neg hslash, if_neg hslash] at h
      exact (String.append_right_inj _).mp h

/-- The path ends like the file name. -/
theorem pathCombine_getLast? {name : String} {last : Char}
    (h : name.toList.getLast? = some last) (path : String) :
    (pathCombine path name).toList.getLast? = some last := by
  have hlast : ∀ front : String, (front ++ name).toList.getLast? = some last := by
    intro front
    rw [String.toList_append, List.getLast?_append, h, Option.some_or]
  rw [pathCombine]
  split
  · exact h
  · split
    · exact h
    · split
      · exact hlast path
      · exact hlast (path ++ "/")

/-- A write replaces what is behind the position. -/
theorem FileSink.write_over {sink : FileSink} {fs : FileSystem} {front behind : List UInt8}
    (hfile : fs sink.path = some (front ++ behind)) (hposition : sink.position = front.length)
    (data : List UInt8) :
    sink.write fs data = (⟨sink.path, (front ++ data).length⟩,
      fs.set sink.path (some (front ++ data ++ behind.drop data.length))) := by
  rw [FileSink.write, hfile, hposition, Option.getD_some, List.take_left, ← List.length_append,
    List.length_append, List.drop_append, List.drop_eq_nil_of_le (Nat.le_add_right _ _),
    List.nil_append, Nat.add_sub_cancel_left, ← List.length_append]

/-- A write at the end of a file appends to it. -/
theorem FileSink.write_end {sink : FileSink} {fs : FileSystem} {contents : List UInt8}
    (hfile : fs sink.path = some contents) (hend : sink.position = contents.length)
    (data : List UInt8) :
    sink.write fs data =
      (⟨sink.path, (contents ++ data).length⟩, fs.set sink.path (some (contents ++ data))) := by
  have hover := FileSink.write_over
    (hfile.trans (congrArg some (List.append_nil contents).symm)) hend data
  rw [hover, List.drop_nil, List.append_nil]

end InMemoryFuzzing.Platform

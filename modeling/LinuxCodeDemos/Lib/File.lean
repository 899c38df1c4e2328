/-
  LinuxCodeDemos.Lib.File

  Regular files, as `open` and `write` of POSIX treat them.

  An open file is its content and an offset inside it.  `write` puts its bytes over what is
  there and moves the offset; it never shortens a file.  Writing in pieces is the same as
  writing at once (`write_write`), so what a loop of writes leaves depends on the flags of
  `open` and on the bytes alone (`content_write`).
-/

import LinuxCodeDemos.Lib.Memory

namespace LinuxCodeDemos.Lib

variable {α : Type _}

/-- The flags of `open` that decide what a file holds afterwards. -/
structure OpenFlags where
  creat : Bool
  trunc : Bool
  deriving DecidableEq, Repr

/-- A file open for writing. -/
@[ext] structure OpenFile (α : Type _) where
  content : List α
  offset : Nat
  inside : offset ≤ content.length

/-- `open`, where the permissions allow it: `none` is a file that does not exist. -/
def openFile (flags : OpenFlags) : Option (List α) → Option (OpenFile α)
  | some old =>
      some { content := if flags.trunc then [] else old, offset := 0, inside := Nat.zero_le _ }
  | none =>
      if flags.creat then some { content := [], offset := 0, inside := Nat.zero_le _ } else none

namespace OpenFile

theorem write_inside (f : OpenFile α) (bs : List α) :
    f.offset + bs.length ≤ (splice f.content f.offset bs).length := by
  have hin := f.inside
  simp only [splice, List.length_append, List.length_take, List.length_drop]
  omega

/-- `write`. -/
def write (f : OpenFile α) (bs : List α) : OpenFile α where
  content := splice f.content f.offset bs
  offset := f.offset + bs.length
  inside := write_inside f bs

theorem write_nil (f : OpenFile α) : f.write [] = f := by
  apply OpenFile.ext
  · exact splice_nil f.content f.offset
  · rfl

/-- A copy behind the first part of a block. -/
theorem splice_behind (as rest bs : List α) :
    splice (as ++ rest) as.length bs = as ++ (bs ++ rest.drop bs.length) := by
  rw [splice, List.take_left, List.drop_append, List.drop_eq_nil_of_le (by omega),
    List.nil_append, Nat.add_sub_cancel_left]

/-- Two writes are one. -/
theorem write_write (f : OpenFile α) (as bs : List α) :
    (f.write as).write bs = f.write (as ++ bs) := by
  have hfront : (f.content.take f.offset ++ as).length = f.offset + as.length := by
    rw [List.length_append, List.length_take_of_le f.inside]
  apply OpenFile.ext
  · show splice (splice f.content f.offset as) (f.offset + as.length) bs
      = splice f.content f.offset (as ++ bs)
    have hsplit : splice f.content f.offset as =
        (f.content.take f.offset ++ as) ++ f.content.drop (f.offset + as.length) := by
      rw [splice, List.append_assoc]
    rw [hsplit, ← hfront, splice_behind, hfront, List.drop_drop, splice, List.length_append,
      List.append_assoc, List.append_assoc, Nat.add_assoc]
  · show f.offset + as.length + bs.length = f.offset + (as ++ bs).length
    rw [List.length_append, Nat.add_assoc]

/-- A write from the start of the file. -/
theorem content_write {f : OpenFile α} (h : f.offset = 0) (bs : List α) :
    (f.write bs).content = bs ++ f.content.drop bs.length := by
  show splice f.content f.offset bs = _
  rw [splice, h, List.take_zero, List.nil_append, Nat.zero_add]

end OpenFile

/-- `O_CREAT` without `O_TRUNC`. -/
theorem openFile_creat (old : Option (List α)) :
    openFile { creat := true, trunc := false } old
      = some { content := old.getD [], offset := 0, inside := Nat.zero_le _ } := by
  cases old with
  | none => rfl
  | some old => rfl

end LinuxCodeDemos.Lib

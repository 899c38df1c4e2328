/-
  LinuxCodeDemos.Lib.CString

  Texts in arrays of bytes.

  `inArray size text` is an array that was cleared and then got the text; a NUL written right behind
  the text changes nothing there.  `cString` is the text that starts at a place of a block and ends
  before the next NUL, and `find` is `strstr` on such texts.
-/

import LinuxCodeDemos.Lib.Memory

namespace LinuxCodeDemos.Lib

/-- A text in an array of `size` bytes that was cleared. -/
def inArray (size : Nat) (text : List UInt8) : List UInt8 :=
  text ++ List.replicate (size - text.length) 0

/-- The text at `block + pos`; a block without a NUL from there on is read beyond its end. -/
def cString (block : List UInt8) (pos : Nat) : Except Fault (List UInt8) :=
  if 0 ∈ block.drop pos then .ok ((block.drop pos).takeWhile (· ≠ 0)) else .error .read

/-- The first place of `needle` in a text. -/
def find (needle : List UInt8) : List UInt8 → Option Nat
  | [] => if needle = [] then some 0 else none
  | ch :: text =>
      if (ch :: text).take needle.length = needle then some 0
      else (find needle text).map (· + 1)

section Arrays

variable {text : List UInt8} {size k : Nat}

theorem length_inArray (h : text.length ≤ size) : (inArray size text).length = size := by
  rw [inArray, List.length_append, List.length_replicate]
  omega

/-- A copy to the start of a cleared array. -/
theorem splice_cleared : splice (List.replicate size 0) 0 text = inArray size text := by
  rw [splice, inArray, List.take_zero, List.nil_append, Nat.zero_add, List.drop_replicate]

/-- Zeros behind the text change nothing. -/
theorem inArray_zeros (h : text.length + k ≤ size) :
    inArray size (text ++ List.replicate k 0) = inArray size text := by
  rw [inArray, inArray, List.append_assoc, List.replicate_append_replicate, List.length_append,
    List.length_replicate]
  congr 2
  omega

/-- An array that is not full, with the first NUL behind the text. -/
theorem inArray_eq_cons (h : text.length < size) :
    inArray size text = text ++ 0 :: List.replicate (size - text.length - 1) 0 := by
  rw [inArray, ← List.replicate_succ]
  congr 2
  omega

theorem set_terminator (h : text.length < size) :
    (inArray size text).set text.length 0 = inArray size text := by
  rw [inArray_eq_cons h, List.set_append_right _ _ (Nat.le_refl _), Nat.sub_self]
  rfl

theorem store_terminator (h : text.length < size) :
    store (inArray size text) text.length [0] = .ok (inArray size text) := by
  rw [store_single (by rw [length_inArray (by omega)]; exact h), set_terminator h]

end Arrays

section Strings

variable {block text rest needle : List UInt8} {pos : Nat}

theorem cString_eq (h : block.drop pos = text ++ 0 :: rest) (htext : 0 ∉ text) :
    cString block pos = .ok text := by
  have hmem : (0 : UInt8) ∈ text ++ 0 :: rest := List.mem_append_right _ (List.mem_cons_self ..)
  have hall : ∀ ch ∈ text, decide (ch ≠ 0) = true :=
    fun ch hch => decide_eq_true fun hzero => htext (hzero ▸ hch)
  rw [cString, h, if_pos hmem, List.takeWhile_append_of_pos hall,
    List.takeWhile_cons_of_neg (by decide), List.append_nil]

/-- The first place is found. -/
theorem find_first :
    ∀ (before text : List UInt8), needle ≠ [] →
      (∀ i < before.length,
        ((before ++ (needle ++ text)).drop i).take needle.length ≠ needle) →
      find needle (before ++ (needle ++ text)) = some before.length := by
  intro before
  induction before with
  | nil =>
      intro text hne _
      have hhere : (needle ++ text).take needle.length = needle := List.take_left
      obtain ⟨ch, needle', rfl⟩ := List.exists_cons_of_ne_nil hne
      rw [List.nil_append, List.cons_append, find]
      exact if_pos hhere
  | cons ch before ih =>
      intro text hne hfirst
      have hhere : ¬ (ch :: (before ++ (needle ++ text))).take needle.length = needle :=
        hfirst 0 (Nat.succ_pos _)
      have hlater := ih text hne fun i hi => hfirst (i + 1) (Nat.succ_lt_succ hi)
      rw [List.cons_append, find, if_neg hhere, hlater]
      rfl

/-- A text without some character of `needle`. -/
theorem find_none {ch : UInt8} (hch : ch ∈ needle) (htext : ch ∉ text) :
    find needle text = none := by
  have hne : needle ≠ [] := List.ne_nil_of_mem hch
  induction text with
  | nil => rw [find, if_neg hne]
  | cons c text ih =>
      have hhere : ¬ (c :: text).take needle.length = needle := fun h =>
        htext (List.mem_of_mem_take (h ▸ hch))
      rw [find, if_neg hhere, ih fun hmem => htext (List.mem_cons_of_mem _ hmem)]
      rfl

end Strings

end LinuxCodeDemos.Lib

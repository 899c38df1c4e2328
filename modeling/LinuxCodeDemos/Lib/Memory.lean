/-
  LinuxCodeDemos.Lib.Memory

  C memory blocks as lists.  A block is a list of cells; `load` and `store`
  check every offset and answer with a `Fault` when the access leaves the
  block, so that "this code stays inside its buffer" is a theorem about the
  outcome of a run and not a convention of the model.

  `splice` is the effect of a `memcpy` into a block.  Its element
  characterisation `splice_getElem?` (new bytes inside the window, old cells
  elsewhere) is the one fact later proofs use about a copy.
-/

import Mathlib.Data.List.Basic
import Mathlib.Algebra.Order.Ring.Nat
import Mathlib.Algebra.Order.Ring.Int

namespace LinuxCodeDemos.Lib

/-- What can go wrong in a C run that the language leaves undefined. -/
inductive Fault where
  /-- A read outside the block it is made from. -/
  | read
  /-- A write outside the block it is made to, or through a null pointer. -/
  | write
  /-- A signed `int` result outside `-2^31 .. 2^31 - 1`. -/
  | overflow
  deriving DecidableEq, Repr

/-- The largest value of a 32-bit `int`. -/
def intMax : Nat := 2 ^ 31 - 1

/-- The sum of two `int`s, as a bit pattern: counters wrap modulo `2^32`. -/
def addInt (a b : Nat) : Nat := (a + b) % 2 ^ 32

theorem addInt_of_lt {a b : Nat} (h : a + b < 2 ^ 32) : addInt a b = a + b :=
  Nat.mod_eq_of_lt h

variable {α : Type _}

-- ============================================================================
-- The rest of a block
-- ============================================================================

/-- A pass over a block that has come to a cell. -/
theorem drop_of_getElem? {block : List α} {i : Nat} {v : α} (h : block[i]? = some v) :
    block.drop i = v :: block.drop (i + 1) := by
  obtain ⟨hlt, hget⟩ := List.getElem?_eq_some_iff.mp h
  rw [List.drop_eq_getElem_cons hlt, hget]

/-- A cell that is appended is in the rest. -/
theorem mem_drop_concat {block : List α} {n : Nat} {v last : α}
    (h : v ∈ (block ++ [last]).drop n) : v ∈ block.drop n ∨ v = last := by
  rw [List.drop_append] at h
  rcases List.mem_append.mp h with hold | hnew
  · exact .inl hold
  · exact .inr (List.mem_singleton.mp (List.drop_subset _ _ hnew))

-- ============================================================================
-- Copying into a block
-- ============================================================================

/-- `memcpy (dst + off, src, length of src)`. -/
def splice (dst : List α) (off : Nat) (src : List α) : List α :=
  dst.take off ++ (src ++ dst.drop (off + src.length))

@[simp] theorem splice_nil (dst : List α) (off : Nat) : splice dst off [] = dst := by
  simp [splice]

theorem splice_length {dst src : List α} {off : Nat} (h : off + src.length ≤ dst.length) :
    (splice dst off src).length = dst.length := by
  simp only [splice, List.length_append, List.length_take, List.length_drop]
  omega

/-- Inside the copied window the new bytes are read, elsewhere the old cells. -/
theorem splice_getElem? {dst src : List α} {off : Nat}
    (h : off + src.length ≤ dst.length) (i : Nat) :
    (splice dst off src)[i]? =
      if off ≤ i ∧ i < off + src.length then src[i - off]? else dst[i]? := by
  have htk : (dst.take off).length = off := by rw [List.length_take]; omega
  unfold splice
  by_cases hlo : off ≤ i
  · rw [List.getElem?_append_right (by omega), htk]
    by_cases hhi : i < off + src.length
    · rw [if_pos ⟨hlo, hhi⟩, List.getElem?_append_left (by omega)]
    · rw [if_neg (by omega), List.getElem?_append_right (by omega), List.getElem?_drop]
      congr 1
      omega
  · rw [if_neg (by omega), List.getElem?_append_left (by omega),
      List.getElem?_take_of_lt (by omega)]

/-- A copy that goes on where the last one ended. -/
theorem splice_append {dst xs ys : List α} {off : Nat}
    (h : off + (xs ++ ys).length ≤ dst.length) :
    splice (splice dst off xs) (off + xs.length) ys = splice dst off (xs ++ ys) := by
  rw [List.length_append] at h
  have hxs : off + xs.length ≤ dst.length := by omega
  apply List.ext_getElem?
  intro i
  rw [splice_getElem? (by rw [splice_length hxs]; omega), splice_getElem? hxs,
    splice_getElem? (by rw [List.length_append]; exact h), List.length_append,
    List.getElem?_append]
  by_cases hhead : off ≤ i ∧ i < off + xs.length
  · rw [if_neg (by omega), if_pos hhead, if_pos (by omega), if_pos (by omega)]
  · by_cases htail : off + xs.length ≤ i ∧ i < off + xs.length + ys.length
    · rw [if_pos htail, if_pos (by omega), if_neg (by omega), Nat.sub_sub]
    · rw [if_neg htail, if_neg hhead, if_neg (by omega)]

/-- A copy whose first cell is written before. -/
theorem splice_set {dst xs : List α} {off : Nat} {v : α}
    (h : off + (v :: xs).length ≤ dst.length) :
    splice (dst.set off v) (off + 1) xs = splice dst off (v :: xs) := by
  rw [List.length_cons] at h
  have hset : dst.set off v = splice dst off [v] := by
    rw [splice, List.set_eq_take_append_cons_drop, if_pos (by omega)]
    rfl
  rw [hset]
  exact @splice_append _ dst [v] xs off (by rw [List.length_append, List.length_singleton]; omega)

-- ============================================================================
-- Checked accesses
-- ============================================================================

/-- `block[off]`, a fault outside the block. -/
def load (block : List α) (off : Nat) : Except Fault α :=
  match block[off]? with
  | some v => .ok v
  | none => .error .read

theorem load_eq_ok {block : List α} {off : Nat} {v : α} (h : block[off]? = some v) :
    load block off = .ok v := by
  simp [load, h]

theorem load_of_lt {block : List α} {off : Nat} (h : off < block.length) :
    load block off = .ok block[off] :=
  load_eq_ok (List.getElem?_eq_getElem h)

theorem load_getD {block : List α} {off : Nat} (h : off < block.length) (d : α) :
    load block off = .ok (block.getD off d) := by
  rw [load_of_lt h, List.getD_eq_getElem?_getD, List.getElem?_eq_getElem h, Option.getD_some]

/-- A cell behind a known part of the block. -/
theorem load_of_drop {block tail : List α} (part : List α) {off : Nat} {v : α}
    (h : block.drop off = part ++ v :: tail) : load block (off + part.length) = .ok v := by
  apply load_eq_ok
  rw [← List.getElem?_drop, h, List.getElem?_append_right (Nat.le_refl _), Nat.sub_self]
  rfl

/-- The `n` cells of `block` from `off` on; reading none of them is always fine. -/
def loadBytes (block : List α) (off n : Nat) : Except Fault (List α) :=
  if n = 0 ∨ off + n ≤ block.length then .ok ((block.drop off).take n) else .error .read

theorem loadBytes_of_le {block : List α} {off n : Nat} (h : off + n ≤ block.length) :
    loadBytes block off n = .ok ((block.drop off).take n) := by
  simp [loadBytes, h]

/-- Blocks that agree on a window read the same there. -/
theorem loadBytes_congr {block block' : List α} {off n : Nat} (hlen : block'.length = block.length)
    (h : ∀ i < n, block'[off + i]? = block[off + i]?) :
    loadBytes block' off n = loadBytes block off n := by
  have hwindow : (block'.drop off).take n = (block.drop off).take n := by
    apply List.ext_getElem?
    intro i
    rw [List.getElem?_take, List.getElem?_take, List.getElem?_drop, List.getElem?_drop]
    split
    · next hi => exact h i hi
    · rfl
  rw [loadBytes, loadBytes, hlen, hwindow]

/-- What was copied is read back. -/
theorem loadBytes_splice {block src : List α} {off : Nat} (h : off + src.length ≤ block.length) :
    loadBytes (splice block off src) off src.length = .ok src := by
  have hlen : (block.take off).length = off := by
    rw [List.length_take]
    omega
  rw [loadBytes_of_le (by rw [splice_length h]; exact h), splice, List.drop_left' hlen,
    List.take_left]

/-- Copy `src` to `block + off`, byte by byte: nothing is touched by an empty
    copy, and a byte that lands outside the block is a fault. -/
def store (block : List α) (off : Nat) (src : List α) : Except Fault (List α) :=
  if src = [] ∨ off + src.length ≤ block.length then .ok (splice block off src)
  else .error .write

theorem store_of_le {block src : List α} {off : Nat} (h : off + src.length ≤ block.length) :
    store block off src = .ok (splice block off src) := by
  simp [store, h]

/-- A store that is no fault stays in the block. -/
theorem store_inside {block src block' : List α} {off : Nat} (hsrc : src ≠ [])
    (h : store block off src = .ok block') :
    off + src.length ≤ block.length ∧ splice block off src = block' := by
  rw [store] at h
  split at h
  · next hcond => exact ⟨hcond.resolve_left hsrc, Except.ok.inj h⟩
  · cases h

/-- A block keeps its length. -/
theorem length_of_store {block src block' : List α} {off : Nat}
    (h : store block off src = .ok block') : block'.length = block.length := by
  rw [store] at h
  split at h
  · next hcond =>
    cases h
    rcases hcond with rfl | hle
    · rw [splice_nil]
    · exact splice_length hle
  · cases h

/-- `block[off] = v`. -/
theorem store_single {block : List α} {off : Nat} (h : off < block.length) (v : α) :
    store block off [v] = .ok (block.set off v) := by
  rw [store_of_le (by exact h), splice, List.set_eq_take_append_cons_drop, if_pos h]
  rfl

/-- The result of an `int` operation, a fault outside `-2^31 .. 2^31 - 1`. -/
def checkInt (n : Int) : Except Fault Int :=
  if -2 ^ 31 ≤ n ∧ n ≤ intMax then .ok n else .error .overflow

theorem checkInt_of_le {n : Int} (hlow : -2 ^ 31 ≤ n) (hhigh : n ≤ intMax) :
    checkInt n = .ok n :=
  if_pos ⟨hlow, hhigh⟩

theorem checkInt_eq_ok {n m : Int} (h : checkInt n = .ok m) :
    (-2 ^ 31 ≤ n ∧ n ≤ intMax) ∧ m = n := by
  rw [checkInt] at h
  split at h
  · next hrange => exact ⟨hrange, (Except.ok.inj h).symm⟩
  · cases h

end LinuxCodeDemos.Lib

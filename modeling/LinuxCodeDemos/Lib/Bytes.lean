/-
  LinuxCodeDemos.Lib.Bytes

  Little-endian words in byte blocks.

  `le16` and `le32` read a word at an offset; past the end of the block they read
  zeros.  A word is read back from where it was written (`le32_bytes32`), and a read
  inside a part of a block is a read from that part (`le32_of_drop`).  `wordBytes` and
  `wordOfBytes` are the same for words of any number of bytes.
-/

import Mathlib.Data.List.GetD
import LinuxCodeDemos.Lib.Memory

namespace LinuxCodeDemos.Lib

/-- A `uint16_t`, low byte first. -/
def le16 (block : List UInt8) (off : Nat) : Nat :=
  (block.getD off 0).toNat + 256 * (block.getD (off + 1) 0).toNat

/-- A `uint32_t`. -/
def le32 (block : List UInt8) (off : Nat) : Nat := le16 block off + 65536 * le16 block (off + 2)

theorem le16_lt (block : List UInt8) (off : Nat) : le16 block off < 2 ^ 16 := by
  have hlow := (block.getD off 0).toNat_lt
  have hhigh := (block.getD (off + 1) 0).toNat_lt
  rw [le16]
  omega

theorem le32_lt (block : List UInt8) (off : Nat) : le32 block off < 2 ^ 32 := by
  have hlow := le16_lt block off
  have hhigh := le16_lt block (off + 2)
  rw [le32]
  omega

/-- The bytes of a `uint16_t`. -/
def bytes16 (n : Nat) : List UInt8 := [UInt8.ofNat n, UInt8.ofNat (n / 256)]

/-- The bytes of a `uint32_t`. -/
def bytes32 (n : Nat) : List UInt8 := bytes16 n ++ bytes16 (n / 65536)

theorem le16_bytes16 {n : Nat} (h : n < 2 ^ 16) (rest : List UInt8) :
    le16 (bytes16 n ++ rest) 0 = n := by
  show (UInt8.ofNat n).toNat + 256 * (UInt8.ofNat (n / 256)).toNat = n
  rw [UInt8.toNat_ofNat', UInt8.toNat_ofNat']
  omega

theorem le32_bytes32 {n : Nat} (h : n < 2 ^ 32) (rest : List UInt8) :
    le32 (bytes32 n ++ rest) 0 = n := by
  show (UInt8.ofNat n).toNat + 256 * (UInt8.ofNat (n / 256)).toNat
    + 65536 * ((UInt8.ofNat (n / 65536)).toNat + 256 * (UInt8.ofNat (n / 65536 / 256)).toNat) = n
  rw [UInt8.toNat_ofNat', UInt8.toNat_ofNat', UInt8.toNat_ofNat', UInt8.toNat_ofNat']
  omega

-- ============================================================================
-- Words of any size
-- ============================================================================

/-- The low `k` bytes of a word. -/
def wordBytes : Nat → Nat → List UInt8
  | 0, _ => []
  | k + 1, n => UInt8.ofNat n :: wordBytes k (n / 256)

/-- The word of these bytes. -/
def wordOfBytes : List UInt8 → Nat
  | [] => 0
  | b :: bytes => b.toNat + 256 * wordOfBytes bytes

@[simp] theorem length_wordBytes (k n : Nat) : (wordBytes k n).length = k := by
  induction k generalizing n with
  | zero => rfl
  | succ k ih => rw [wordBytes, List.length_cons, ih]

theorem wordOfBytes_wordBytes (k n : Nat) : wordOfBytes (wordBytes k n) = n % 256 ^ k := by
  induction k generalizing n with
  | zero => rw [wordBytes, wordOfBytes, Nat.pow_zero, Nat.mod_one]
  | succ k ih =>
      rw [wordBytes, wordOfBytes, ih, UInt8.toNat_ofNat', Nat.pow_succ 256, Nat.mul_comm (256 ^ k),
        Nat.mod_mul]

theorem getElem?_wordBytes {k i : Nat} (h : i < k) (n : Nat) :
    (wordBytes k n)[i]? = some (UInt8.ofNat (n / 256 ^ i)) := by
  induction k generalizing n i with
  | zero => omega
  | succ k ih =>
      cases i with
      | zero => rw [wordBytes, List.getElem?_cons_zero, Nat.pow_zero, Nat.div_one]
      | succ i =>
          rw [wordBytes, List.getElem?_cons_succ, ih (by omega), Nat.div_div_eq_div_mul, Nat.pow_succ,
            Nat.mul_comm (256 ^ i)]

-- ============================================================================
-- Parts of a block
-- ============================================================================

section Parts

variable {block part rest : List UInt8} {off : Nat}

theorem le16_of_drop (h : block.drop off = part) (i : Nat) : le16 block (off + i) = le16 part i := by
  subst h
  simp only [le16, List.getD_eq_getElem?_getD, List.getElem?_drop, Nat.add_assoc]

theorem le32_of_drop (h : block.drop off = part) (i : Nat) : le32 block (off + i) = le32 part i := by
  rw [le32, le32, le16_of_drop h, Nat.add_assoc, le16_of_drop h]

theorem le16_append_right (i : Nat) : le16 (part ++ rest) (part.length + i) = le16 rest i :=
  le16_of_drop List.drop_left i

theorem le32_append_right (i : Nat) : le32 (part ++ rest) (part.length + i) = le32 rest i :=
  le32_of_drop List.drop_left i

end Parts

end LinuxCodeDemos.Lib

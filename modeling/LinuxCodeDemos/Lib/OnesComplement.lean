/-
  LinuxCodeDemos.Lib.OnesComplement

  16-bit one's complement sums.

  `onesAdd` adds with an end-around carry.  Words that are added one by one come to the number of
  `1 .. 65535` that is congruent to their plain sum modulo 65535, or to zero if they all are zero:
  `canon`.  Folding the carries of a wide sum does not change it (`canon_fold`), and a word with its
  bytes exchanged is 256 times the word (`canon_swap16`), so sums can be taken in either byte order.
-/

import Mathlib.Algebra.BigOperators.Group.List.Basic
import LinuxCodeDemos.Lib.Bytes

namespace LinuxCodeDemos.Lib

/-- The sum of two words, with the carry added in again. -/
def onesAdd (a b : Nat) : Nat := if a + b < 65536 then a + b else a + b - 65535

/-- The sum of some words. -/
def onesSum (words : List Nat) : Nat := words.foldl onesAdd 0

/-- The word that a plain sum comes to. -/
def canon (n : Nat) : Nat := if n = 0 then 0 else (n - 1) % 65535 + 1

/-- A word with its two bytes exchanged. -/
def swap16 (n : Nat) : Nat := n % 256 * 256 + n / 256

section Sums

variable {n m : Nat}

theorem canon_le (n : Nat) : canon n ≤ 65535 := by
  rw [canon]
  split <;> omega

theorem canon_mod (n : Nat) : canon n % 65535 = n % 65535 := by
  rw [canon]
  split <;> omega

theorem canon_eq_zero : canon n = 0 ↔ n = 0 := by
  rw [canon]
  split <;> omega

/-- Words are told apart by their remainder, except for the two that are zero. -/
theorem eq_of_mod_eq {a b : Nat} (ha : a ≤ 65535) (hb : b ≤ 65535) (hmod : a % 65535 = b % 65535)
    (hzero : a = 0 ↔ b = 0) : a = b := by
  omega

theorem canon_congr (hmod : n % 65535 = m % 65535) (hzero : n = 0 ↔ m = 0) :
    canon n = canon m := by
  apply eq_of_mod_eq (canon_le n) (canon_le m)
  · rw [canon_mod, canon_mod, hmod]
  · rw [canon_eq_zero, canon_eq_zero, hzero]

theorem canon_of_le (h : n ≤ 65535) : canon n = n := by
  rw [canon]
  split <;> omega

/-- One more word. -/
theorem onesAdd_canon (n : Nat) {word : Nat} (h : word ≤ 65535) :
    onesAdd (canon n) word = canon (n + word) := by
  rw [onesAdd, canon, canon]
  split <;> split <;> split <;> omega

theorem onesSum_eq {words : List Nat} (h : ∀ w ∈ words, w ≤ 65535) :
    onesSum words = canon words.sum := by
  have hfold : ∀ (ws : List Nat) (n : Nat), (∀ w ∈ ws, w ≤ 65535) →
      ws.foldl onesAdd (canon n) = canon (n + ws.sum) := by
    intro ws
    induction ws with
    | nil => exact fun n _ => rfl
    | cons w ws ih =>
        intro n hws
        rw [List.foldl_cons, onesAdd_canon n (hws w (List.mem_cons_self ..)),
          ih _ fun v hv => hws v (List.mem_cons_of_mem _ hv), List.sum_cons, Nat.add_assoc]
  have hsum := hfold words 0 h
  rwa [Nat.zero_add] at hsum

/-- The carries of a wide sum can be folded in. -/
theorem canon_fold (n : Nat) : canon (n / 65536 + n % 65536) = canon n := by
  apply canon_congr
  · omega
  · omega

theorem swap16_lt (h : n < 65536) : swap16 n < 65536 := by
  rw [swap16]
  omega

theorem swap16_mod (n : Nat) : swap16 n % 65535 = 256 * n % 65535 := by
  rw [swap16]
  omega

/-- Sums can be taken in either byte order. -/
theorem canon_swap16 (hmod : n % 65535 = 256 * m % 65535) (hzero : n = 0 ↔ m = 0) :
    canon n = swap16 (canon m) := by
  have hle := canon_le m
  have hcanon := canon_mod m
  have hnone := @canon_eq_zero m
  apply eq_of_mod_eq (canon_le n)
  · have hlt := @swap16_lt (canon m) (by omega)
    omega
  · rw [canon_mod, swap16_mod, hmod, Nat.mul_mod, Nat.mul_mod 256 (canon m), hcanon]
  · rw [canon_eq_zero, hzero, ← hnone, swap16]
    omega

theorem swap16_complement (h : n ≤ 65535) : swap16 (65535 - n) = 65535 - swap16 n := by
  rw [swap16, swap16]
  omega

end Sums

end LinuxCodeDemos.Lib

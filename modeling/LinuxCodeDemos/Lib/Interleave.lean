/-
  LinuxCodeDemos.Lib.Interleave

  Interleavings of two sequences, each kept in its own order.

  `Interleave xs ys zs` says that a receiver which serves two senders may see
  `zs`.  An interleaving can be cut at any point (`split`) and two of them can
  be put one after the other (`append`).
-/

import Mathlib.Data.List.Basic

namespace LinuxCodeDemos.Lib

variable {α : Type _}

/-- `zs` has the elements of `xs` and of `ys`, both in order. -/
inductive Interleave : List α → List α → List α → Prop where
  | nil : Interleave [] [] []
  | left {x : α} {xs ys zs : List α} (h : Interleave xs ys zs) : Interleave (x :: xs) ys (x :: zs)
  | right {y : α} {xs ys zs : List α} (h : Interleave xs ys zs) : Interleave xs (y :: ys) (y :: zs)

namespace Interleave

variable {xs ys zs xs' ys' zs' : List α}

theorem perm (h : Interleave xs ys zs) : zs.Perm (xs ++ ys) := by
  induction h with
  | nil => exact List.Perm.refl _
  | left _ ih => exact ih.cons _
  | right _ ih => exact (ih.cons _).trans List.perm_middle.symm

/-- One sender alone. -/
theorem only_left (xs : List α) : Interleave xs [] xs := by
  induction xs with
  | nil => exact .nil
  | cons x xs ih => exact .left ih

theorem only_right (ys : List α) : Interleave [] ys ys := by
  induction ys with
  | nil => exact .nil
  | cons y ys ih => exact .right ih

theorem eq_of_left_nil (h : Interleave [] ys zs) : zs = ys := by
  generalize hxs : ([] : List α) = xs at h
  induction h with
  | nil => rfl
  | left => cases hxs
  | right _ ih => rw [ih hxs]

theorem eq_of_right_nil (h : Interleave xs [] zs) : zs = xs := by
  generalize hys : ([] : List α) = ys at h
  induction h with
  | nil => rfl
  | left _ ih => rw [ih hys]
  | right => cases hys

theorem append (h : Interleave xs ys zs) (h' : Interleave xs' ys' zs') :
    Interleave (xs ++ xs') (ys ++ ys') (zs ++ zs') := by
  induction h with
  | nil => exact h'
  | left _ ih => exact .left ih
  | right _ ih => exact .right ih

/-- The first `n` elements and the rest are interleavings of a beginning and of
    the rest of either side. -/
theorem split (h : Interleave xs ys zs) (n : Nat) :
    ∃ a b, Interleave (xs.take a) (ys.take b) (zs.take n) ∧
      Interleave (xs.drop a) (ys.drop b) (zs.drop n) ∧ a ≤ xs.length ∧ b ≤ ys.length := by
  induction h generalizing n with
  | nil => exact ⟨0, 0, by simpa using .nil, by simpa using .nil, Nat.le_refl _, Nat.le_refl _⟩
  | left h ih =>
      cases n with
      | zero => exact ⟨0, 0, .nil, .left h, Nat.zero_le _, Nat.zero_le _⟩
      | succ n =>
          obtain ⟨a, b, h₁, h₂, ha, hb⟩ := ih n
          exact ⟨a + 1, b, .left h₁, h₂, Nat.succ_le_succ ha, hb⟩
  | right h ih =>
      cases n with
      | zero => exact ⟨0, 0, .nil, .right h, Nat.zero_le _, Nat.zero_le _⟩
      | succ n =>
          obtain ⟨a, b, h₁, h₂, ha, hb⟩ := ih n
          exact ⟨a, b + 1, .right h₁, h₂, ha, Nat.succ_le_succ hb⟩

end Interleave

end LinuxCodeDemos.Lib

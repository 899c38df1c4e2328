/-
  LinuxCodeDemos.Lib.Lockstep

  `for` loops over two counters that advance together, as a list of the events
  of their turns.

  `mem_lockstep` says which turns are made; `all_forBoth_iff` adds what the
  loop itself computes, the two bounds and the two counters behind each turn.
-/

import Mathlib.Data.List.Basic
import Mathlib.Tactic.Ring

namespace LinuxCodeDemos.Lib

variable {ε : Type}

/-- The events of at most `fuel` turns, of which the first has the number `turn`. -/
def lockstepFrom (step bound bound' : Int) (body : Nat → Int → Int → List ε) :
    Nat → Nat → Int → Int → List ε
  | 0, _, _, _ => []
  | fuel + 1, turn, i, j =>
      if i < bound ∧ j < bound' then
        body turn i j ++ lockstepFrom step bound bound' body fuel (turn + 1) (i + step) (j + step)
      else []

/-- `for (; i < bound && j < bound'; i += step, j += step) body`, with the number of
    turns before this one as the body's first argument. -/
def lockstep (step bound bound' : Int) (body : Nat → Int → Int → List ε) (i j : Int) : List ε :=
  lockstepFrom step bound bound' body (bound - i).toNat 0 i j

/-- The same loop with the values of its own `int` expressions.  The bounds are the same
    before every turn; the second one is not computed where the first is met at once. -/
def forBoth (int : Int → ε) (step bound bound' : Int) (body : Nat → Int → Int → List ε)
    (i j : Int) : List ε :=
  int bound :: ((if i < bound then [int bound'] else []) ++
    lockstep step bound bound'
      (fun turn i j => body turn i j ++ [int (i + step), int (j + step)]) i j)

section Turns

variable {step bound bound' : Int} {body : Nat → Int → Int → List ε} {e : ε}

/-- With enough fuel, the turns are those before one of the counters is at its bound. -/
theorem mem_lockstepFrom (hstep : 0 < step) :
    ∀ {fuel : Nat} (turn : Nat) {i j : Int}, bound - i ≤ fuel →
      (e ∈ lockstepFrom step bound bound' body fuel turn i j ↔
        ∃ k : Nat, i + step * k < bound ∧ j + step * k < bound' ∧
          e ∈ body (turn + k) (i + step * k) (j + step * k)) := by
  intro fuel
  induction fuel with
  | zero =>
      intro turn i j hfuel
      refine ⟨?_, ?_⟩
      · intro h
        cases h
      · rintro ⟨k, hi, -, -⟩
        have hk : 0 ≤ step * (k : Int) := Int.mul_nonneg hstep.le (Int.natCast_nonneg k)
        omega
  | succ fuel ih =>
      intro turn i j hfuel
      have hnext : ∀ k : Nat, step * ((k + 1 : Nat) : Int) = step + step * (k : Int) := by
        intro k
        push_cast
        ring
      rw [lockstepFrom]
      by_cases hgo : i < bound ∧ j < bound'
      · rw [if_pos hgo, List.mem_append, ih (turn + 1) (by omega)]
        refine ⟨?_, ?_⟩
        · rintro (hnow | ⟨k, hi, hj, hlater⟩)
          · refine ⟨0, ?_⟩
            simpa using ⟨hgo.1, hgo.2, hnow⟩
          · refine ⟨k + 1, ?_⟩
            rw [hnext, ← Int.add_assoc, ← Int.add_assoc, Nat.add_comm k 1, ← Nat.add_assoc]
            exact ⟨hi, hj, hlater⟩
        · rintro ⟨k, hi, hj, hmem⟩
          cases k with
          | zero => exact .inl (by simpa using hmem)
          | succ k =>
              rw [hnext, ← Int.add_assoc] at hi hj
              rw [hnext, ← Int.add_assoc, ← Int.add_assoc, Nat.add_comm k 1,
                ← Nat.add_assoc] at hmem
              exact .inr ⟨k, hi, hj, hmem⟩
      · rw [if_neg hgo]
        refine ⟨?_, ?_⟩
        · intro h
          cases h
        · -- the counters only grow, so no later turn is made either
          rintro ⟨k, hi, hj, -⟩
          have hk : 0 ≤ step * (k : Int) := Int.mul_nonneg hstep.le (Int.natCast_nonneg k)
          exact absurd ⟨by omega, by omega⟩ hgo

theorem mem_lockstep (hstep : 0 < step) {i j : Int} :
    e ∈ lockstep step bound bound' body i j ↔
      ∃ k : Nat, i + step * k < bound ∧ j + step * k < bound' ∧
        e ∈ body k (i + step * k) (j + step * k) := by
  rw [lockstep, mem_lockstepFrom hstep 0 (Int.self_le_toNat _)]
  simp only [Nat.zero_add]

/-- A property of all events of a loop, turn by turn. -/
theorem all_forBoth_iff (hstep : 0 < step) {int : Int → ε} {i j : Int} {P : ε → Prop} :
    (∀ e ∈ forBoth int step bound bound' body i j, P e) ↔
      P (int bound) ∧ (i < bound → P (int bound')) ∧
        ∀ k : Nat, i + step * k < bound → j + step * k < bound' →
          (∀ e ∈ body k (i + step * k) (j + step * k), P e) ∧
            P (int (i + step * k + step)) ∧ P (int (j + step * k + step)) := by
  rw [forBoth, List.forall_mem_cons, List.forall_mem_append]
  apply and_congr_right
  intro _
  apply and_congr
  · by_cases hi : i < bound
    · simp [hi]
    · simp [hi]
  · refine ⟨?_, ?_⟩
    · intro h k hi hj
      have hturn : ∀ e ∈ body k (i + step * k) (j + step * k) ++
          [int (i + step * k + step), int (j + step * k + step)], P e :=
        fun e he => h e ((mem_lockstep hstep).mpr ⟨k, hi, hj, he⟩)
      rw [List.forall_mem_append] at hturn
      exact ⟨hturn.1, hturn.2 _ (by simp), hturn.2 _ (by simp)⟩
    · intro h e he
      obtain ⟨k, hi, hj, hmem⟩ := (mem_lockstep hstep).mp he
      obtain ⟨hbody, hleft, hright⟩ := h k hi hj
      rw [List.mem_append] at hmem
      rcases hmem with hmem | hmem
      · exact hbody e hmem
      · simp only [List.mem_cons, List.not_mem_nil, or_false] at hmem
        rcases hmem with rfl | rfl
        · exact hleft
        · exact hright

end Turns

end LinuxCodeDemos.Lib

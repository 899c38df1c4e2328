/-
  LinuxCodeDemos.Lib.Grid

  Rows of a fixed length in one list.

  `cell` is the element in row `r` and column `c`.  Cells of different
  coordinates are different elements (`cellAt_inj`), so a store into one cell is
  read back there and nowhere else (`cell_set`).
-/

import Mathlib.Data.List.GetD
import LinuxCodeDemos.Lib.Memory

namespace LinuxCodeDemos.Lib

variable {α : Type}

/-- The offset of row `r`, column `c`. -/
def cellAt (stride r c : Nat) : Nat := r * stride + c

/-- The element in row `r`, column `c`. -/
def cell (xs : List α) (stride : Nat) (fallback : α) (r c : Nat) : α :=
  xs.getD (cellAt stride r c) fallback

section Offsets

variable {stride r r' c c' rows : Nat}

theorem cellAt_lt_of_lt (hr : r < r') (hc : c < stride) : cellAt stride r c < r' * stride := by
  have hle : (r + 1) * stride ≤ r' * stride := Nat.mul_le_mul_right stride hr
  rw [Nat.succ_mul] at hle
  rw [cellAt]
  omega

theorem cellAt_inj (hc : c < stride) (hc' : c' < stride) :
    cellAt stride r c = cellAt stride r' c' ↔ r = r' ∧ c = c' := by
  refine ⟨?_, ?_⟩
  · intro h
    have hrow : r = r' := by
      rcases Nat.lt_trichotomy r r' with hlt | heq | hgt
      · have hless := cellAt_lt_of_lt hlt hc
        rw [h, cellAt] at hless
        omega
      · exact heq
      · have hless := cellAt_lt_of_lt hgt hc'
        rw [← h, cellAt] at hless
        omega
    rw [hrow, cellAt, cellAt] at h
    exact ⟨hrow, Nat.add_left_cancel h⟩
  · rintro ⟨rfl, rfl⟩
    rfl

/-- A cell that lies behind the whole of row `r'`. -/
theorem row_before_of_le (hpos : 0 < stride) (hc : c ≤ stride)
    (h : (r' + 1) * stride ≤ cellAt stride r c) : r' < r ∨ r' = r ∧ c = stride := by
  rw [cellAt, Nat.succ_mul] at h
  rcases Nat.lt_trichotomy r' r with hlt | rfl | hgt
  · exact .inl hlt
  · exact .inr ⟨rfl, by omega⟩
  · have hrows := Nat.mul_le_mul_right stride (show r + 1 ≤ r' by omega)
    rw [Nat.succ_mul] at hrows
    omega

/-- Every offset is a cell. -/
theorem exists_cellAt {n : Nat} (h : n < rows * stride) :
    ∃ r c, r < rows ∧ c < stride ∧ n = cellAt stride r c := by
  have hpos : 0 < stride := by
    rcases Nat.eq_zero_or_pos stride with hzero | hpos
    · rw [hzero, Nat.mul_zero] at h
      omega
    · exact hpos
  refine ⟨n / stride, n % stride, Nat.div_lt_of_lt_mul ?_, Nat.mod_lt n hpos, ?_⟩
  · rwa [Nat.mul_comm]
  · rw [cellAt, Nat.mul_comm, Nat.div_add_mod]

end Offsets

section Cells

variable {xs : List α} {stride rows r r' c c' : Nat} {fallback v : α}

theorem cell_set (hr : r < rows) (hlen : xs.length = rows * stride) (hc : c < stride)
    (hc' : c' < stride) :
    cell (xs.set (cellAt stride r c) v) stride fallback r' c'
      = if r' = r ∧ c' = c then v else cell xs stride fallback r' c' := by
  have hlt : cellAt stride r c < xs.length := by
    rw [hlen]
    exact cellAt_lt_of_lt hr hc
  rw [cell, List.getD_eq_getElem?_getD]
  split
  · next heq =>
    rw [heq.1, heq.2, List.getElem?_set_self hlt, Option.getD_some]
  · next hne =>
    have hother : cellAt stride r c ≠ cellAt stride r' c' := by
      intro heq
      obtain ⟨hrow, hcol⟩ := (cellAt_inj hc hc').mp heq
      exact hne ⟨hrow.symm, hcol.symm⟩
    rw [List.getElem?_set_ne hother, cell, List.getD_eq_getElem?_getD]

end Cells

end LinuxCodeDemos.Lib

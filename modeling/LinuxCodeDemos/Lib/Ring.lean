/-
  LinuxCodeDemos.Lib.Ring

  A ring laid out in a block of cells: the queue `q` starts at index `beg` and
  continues past the end of the block at index `0`.  `RingView cells beg q`
  says that the block holds `q`; the lemmas follow the four moves of any ring
  implementation (drop from the front, copy out in one or two segments, copy
  in at the end in one or two segments).

  The physical index is written with one conditional subtraction (`wrap`),
  which equals the remainder for the sums that occur (`wrap_eq_mod`) and keeps
  every index goal linear.
-/

import LinuxCodeDemos.Lib.Memory

namespace LinuxCodeDemos.Lib

variable {α : Type _}

/-- The index `a` of the doubled block, folded back into a block of `cap` cells. -/
def wrap (cap a : Nat) : Nat := if a < cap then a else a - cap

theorem wrap_lt {cap a : Nat} (h : a < 2 * cap) : wrap cap a < cap := by
  unfold wrap
  split <;> omega

theorem wrap_of_lt {cap a : Nat} (h : a < cap) : wrap cap a = a := if_pos h

theorem wrap_of_le {cap a : Nat} (h : cap ≤ a) : wrap cap a = a - cap :=
  if_neg (Nat.not_lt.mpr h)

theorem wrap_eq_mod {cap a : Nat} (h : a < 2 * cap) : wrap cap a = a % cap := by
  by_cases ha : a < cap
  · rw [wrap_of_lt ha, Nat.mod_eq_of_lt ha]
  · rw [wrap_of_le (by omega), Nat.mod_eq_sub_mod (by omega), Nat.mod_eq_of_lt (by omega)]

/-- The cells from `beg` on, around the end of the block, hold `q`. -/
structure RingView (cells : List α) (beg : Nat) (q : List α) : Prop where
  beg_lt : beg < cells.length
  fits : q.length ≤ cells.length
  cell : ∀ i, i < q.length → cells[wrap cells.length (beg + i)]? = q[i]?

namespace RingView

variable {cells q src : List α} {beg n : Nat}

theorem empty (h : beg < cells.length) : RingView cells beg [] :=
  ⟨h, by simp, fun i hi => absurd hi (by simp)⟩

theorem get (h : RingView cells beg q) {i : Nat} (hi : i < q.length) :
    cells[(i + beg) % cells.length]? = q[i]? := by
  have hfit := h.fits
  have hbeg := h.beg_lt
  rw [Nat.add_comm, ← wrap_eq_mod (by omega)]
  exact h.cell i hi

/-- Moving `beg` forward by `n` drops the first `n` elements. -/
theorem drop (h : RingView cells beg q) (hn : n ≤ q.length) :
    RingView cells (wrap cells.length (beg + n)) (q.drop n) := by
  have hfit := h.fits
  have hbeg := h.beg_lt
  refine ⟨wrap_lt (by omega), by simp only [List.length_drop]; omega, fun i hi => ?_⟩
  rw [List.length_drop] at hi
  have hidx : wrap cells.length (wrap cells.length (beg + n) + i)
      = wrap cells.length (beg + (n + i)) := by
    unfold wrap
    split_ifs <;> omega
  rw [hidx, h.cell (n + i) (by omega), List.getElem?_drop]

/-- Copying out in a single step: the first `n` elements do not reach the end. -/
theorem take_single (h : RingView cells beg q) (hn : n ≤ q.length)
    (hend : beg + n ≤ cells.length) : (cells.drop beg).take n = q.take n := by
  apply List.ext_getElem?
  intro i
  by_cases hi : i < n
  · have hc := h.cell i (by omega)
    rw [wrap_of_lt (by omega)] at hc
    rw [List.getElem?_take_of_lt hi, List.getElem?_take_of_lt hi, List.getElem?_drop, hc]
  · rw [List.getElem?_eq_none (by simp only [List.length_take, List.length_drop]; omega),
      List.getElem?_eq_none (by simp only [List.length_take]; omega)]

/-- Copying out in two steps: the tail of the block, then its first cells. -/
theorem take_double (h : RingView cells beg q) (hn : n ≤ q.length)
    (hend : cells.length < beg + n) :
    cells.drop beg ++ cells.take (n - (cells.length - beg)) = q.take n := by
  have hfit := h.fits
  have hbeg := h.beg_lt
  apply List.ext_getElem?
  intro i
  have hdl : (cells.drop beg).length = cells.length - beg := List.length_drop
  by_cases hi : i < n
  · have hc := h.cell i (by omega)
    rw [List.getElem?_take_of_lt hi]
    by_cases hlo : i < cells.length - beg
    · rw [List.getElem?_append_left (by omega), List.getElem?_drop]
      rwa [wrap_of_lt (by omega)] at hc
    · rw [List.getElem?_append_right (by omega), hdl, List.getElem?_take_of_lt (by omega)]
      rw [wrap_of_le (by omega)] at hc
      rw [← hc]
      congr 1
      omega
  · rw [List.getElem?_eq_none
        (by simp only [List.length_append, List.length_take, List.length_drop]; omega),
      List.getElem?_eq_none (by simp only [List.length_take]; omega)]

/-- A copy into free cells, linear from the end of the queue, appends. -/
theorem append_single (h : RingView cells beg q) (hroom : q.length + src.length ≤ cells.length)
    (hend : wrap cells.length (beg + q.length) + src.length ≤ cells.length) :
    RingView (splice cells (wrap cells.length (beg + q.length)) src) beg (q ++ src) := by
  have hbeg := h.beg_lt
  have hlen := splice_length hend
  refine ⟨by omega, by rw [hlen, List.length_append]; exact hroom, fun i hi => ?_⟩
  rw [List.length_append] at hi
  rw [hlen, splice_getElem? hend]
  by_cases hold : i < q.length
  · -- an old cell is never inside the window of the free ones
    rw [if_neg (by unfold wrap at hend ⊢; split_ifs at hend ⊢ <;> omega), h.cell i hold,
      List.getElem?_append_left hold]
  · rw [if_pos (by unfold wrap at hend ⊢; split_ifs at hend ⊢ <;> omega),
      List.getElem?_append_right (by omega)]
    congr 1
    unfold wrap at hend ⊢
    split_ifs at hend ⊢ <;> omega

/-- A copy that reaches the end of the block continues at its first cell. -/
theorem append_double (h : RingView cells beg q) (hroom : q.length + src.length ≤ cells.length)
    (hend : cells.length < wrap cells.length (beg + q.length) + src.length) :
    RingView
      (splice
        (splice cells (wrap cells.length (beg + q.length))
          (src.take (cells.length - wrap cells.length (beg + q.length))))
        0 (src.drop (cells.length - wrap cells.length (beg + q.length))))
      beg (q ++ src) := by
  have hbeg := h.beg_lt
  have hwlt : wrap cells.length (beg + q.length) < cells.length := wrap_lt (by omega)
  -- the copy only reaches the end when the queue itself has not wrapped yet
  have hflat : beg + q.length < cells.length := by
    by_contra hc
    rw [wrap_of_le (by omega)] at hend
    omega
  rw [wrap_of_lt hflat] at hend hwlt ⊢
  have htake : (src.take (cells.length - (beg + q.length))).length
      = cells.length - (beg + q.length) := by
    rw [List.length_take]; omega
  have hfirst : beg + q.length + (src.take (cells.length - (beg + q.length))).length
      ≤ cells.length := by omega
  have hlen₁ := splice_length hfirst
  have hsecond : 0 + (src.drop (cells.length - (beg + q.length))).length
      ≤ (splice cells (beg + q.length)
          (src.take (cells.length - (beg + q.length)))).length := by
    rw [hlen₁, List.length_drop]; omega
  have hlen₂ := splice_length hsecond
  refine ⟨by omega, by rw [hlen₂, hlen₁, List.length_append]; exact hroom, fun i hi => ?_⟩
  rw [List.length_append] at hi
  rw [hlen₂, hlen₁, splice_getElem? hsecond, List.length_drop]
  by_cases hback : beg + i < cells.length
  · rw [wrap_of_lt hback, if_neg (by omega), splice_getElem? hfirst, htake]
    by_cases hold : i < q.length
    · have hc := h.cell i hold
      rw [wrap_of_lt hback] at hc
      rw [if_neg (by omega), hc, List.getElem?_append_left hold]
    · rw [if_pos (by omega), List.getElem?_append_right (by omega),
        List.getElem?_take_of_lt (by omega)]
      congr 1
      omega
  · rw [wrap_of_le (by omega), if_pos (by omega), List.getElem?_append_right (by omega),
      List.getElem?_drop]
    congr 1
    omega

end RingView

end LinuxCodeDemos.Lib

/-
  LinuxCodeDemos.Lib.Lfsr

  Reflected linear feedback shift registers of any width: a bit comes in at the
  low end, the register shifts down, and a one that falls out is fed back at the
  taps.  A CRC register is such a register.

  - `lfsrFeed_xor`: feeding is linear in the register and in the input.
  - `lfsrFeed_eq_zero_iff`: when the highest tap is set, at most `w` bits clear a
    register exactly when it holds these bits.
  - `lfsrFeed_burst`: so a window of at most `w` bits that are not all zero, with
    zeros around it, never leaves a cleared register cleared.
  - `lfsrFeed_odd`: when an odd number of taps is set, the register keeps the parity of
    its input, so an odd number of ones never leaves a cleared register cleared.
-/

import Mathlib.Data.List.Basic

namespace LinuxCodeDemos.Lib

variable {w : Nat}

/-- One shift. -/
def lfsrShift (taps s : BitVec w) : BitVec w :=
  (s >>> 1) ^^^ (if s.getLsbD 0 then taps else 0#w)

/-- One input bit. -/
def lfsrStep (taps s : BitVec w) (b : Bool) : BitVec w :=
  lfsrShift taps (s ^^^ (BitVec.ofBool b).setWidth w)

/-- The register after a string of bits. -/
def lfsrFeed (taps s : BitVec w) (bits : List Bool) : BitVec w := bits.foldl (lfsrStep taps) s

/-- The register holds a string of bits, the first one lowest. -/
def HoldsBits (s : BitVec w) (bits : List Bool) : Prop := ∀ i, s.getLsbD i = bits.getD i false

section Feeding

variable {taps : BitVec w}

@[simp] theorem lfsrFeed_nil (s : BitVec w) : lfsrFeed taps s [] = s := rfl

@[simp] theorem lfsrFeed_cons (s : BitVec w) (b : Bool) (bits : List Bool) :
    lfsrFeed taps s (b :: bits) = lfsrFeed taps (lfsrStep taps s b) bits := rfl

theorem lfsrFeed_append (s : BitVec w) (a b : List Bool) :
    lfsrFeed taps s (a ++ b) = lfsrFeed taps (lfsrFeed taps s a) b := List.foldl_append ..

theorem getLsbD_lfsrShift (s : BitVec w) (i : Nat) :
    (lfsrShift taps s).getLsbD i = (s.getLsbD (i + 1) ^^ (s.getLsbD 0 && taps.getLsbD i)) := by
  rw [lfsrShift, BitVec.getLsbD_xor, BitVec.getLsbD_ushiftRight, Nat.add_comm 1 i]
  cases s.getLsbD 0 <;> simp

theorem lfsrShift_xor (a b : BitVec w) :
    lfsrShift taps (a ^^^ b) = lfsrShift taps a ^^^ lfsrShift taps b := by
  apply BitVec.eq_of_getLsbD_eq
  intro i _
  simp only [getLsbD_lfsrShift, BitVec.getLsbD_xor]
  generalize a.getLsbD (i + 1) = a₁
  generalize b.getLsbD (i + 1) = b₁
  cases a.getLsbD 0 <;> cases b.getLsbD 0 <;> cases taps.getLsbD i <;> cases a₁ <;> cases b₁ <;> rfl

theorem ofBool_xor_setWidth (a b : Bool) :
    (BitVec.ofBool (a ^^ b)).setWidth w
      = (BitVec.ofBool a).setWidth w ^^^ (BitVec.ofBool b).setWidth w := by
  rw [← BitVec.setWidth_xor, BitVec.ofBool_xor_ofBool]

theorem lfsrStep_xor (s t : BitVec w) (a b : Bool) :
    lfsrStep taps (s ^^^ t) (a ^^ b) = lfsrStep taps s a ^^^ lfsrStep taps t b := by
  rw [lfsrStep, ofBool_xor_setWidth, lfsrStep, lfsrStep, ← lfsrShift_xor]
  congr 1
  ac_rfl

/-- Feeding is linear. -/
theorem lfsrFeed_xor (taps s t : BitVec w) {as bs : List Bool} (hlen : as.length = bs.length) :
    lfsrFeed taps (s ^^^ t) (List.zipWith xor as bs) = lfsrFeed taps s as ^^^ lfsrFeed taps t bs := by
  induction as generalizing s t bs with
  | nil =>
      cases bs with
      | nil => rfl
      | cons b bs => cases hlen
  | cons a as ih =>
      cases bs with
      | nil => cases hlen
      | cons b bs =>
          rw [List.zipWith_cons_cons, lfsrFeed_cons, lfsrStep_xor, ih _ _ (Nat.succ.inj hlen),
            lfsrFeed_cons, lfsrFeed_cons]

theorem lfsrStep_zero : lfsrStep taps 0#w false = 0#w := by
  apply BitVec.eq_of_getLsbD_eq
  intro i _
  rw [lfsrStep, getLsbD_lfsrShift]
  simp

/-- A cleared register stays cleared on zeros. -/
theorem lfsrFeed_zeros (n : Nat) : lfsrFeed taps 0#w (List.replicate n false) = 0#w := by
  induction n with
  | zero => rfl
  | succ n ih => rw [List.replicate_succ, lfsrFeed_cons, lfsrStep_zero, ih]

end Feeding

-- ============================================================================
-- Registers with their highest tap set
-- ============================================================================

section HighTap

variable {taps : BitVec w} (htap : taps.getLsbD (w - 1) = true)

include htap

theorem width_pos : 0 < w := by
  apply Nat.pos_of_ne_zero
  rintro rfl
  simp at htap

/-- One step clears the register, or leaves `bits` in it, exactly when the register
    held the input bit below `bits`. -/
theorem lfsrStep_holdsBits (s : BitVec w) (b : Bool) {bits : List Bool} (hlen : bits.length < w) :
    HoldsBits (lfsrStep taps s b) bits ↔ HoldsBits s (b :: bits) := by
  have hpos := width_pos htap
  have hbit : ∀ i, (s ^^^ (BitVec.ofBool b).setWidth w).getLsbD i
      = (s.getLsbD i ^^ (decide (i = 0) && b)) := by
    intro i
    rw [BitVec.getLsbD_xor, BitVec.getLsbD_setWidth, BitVec.getLsbD_ofBool]
    rcases i with _ | i
    · simp [hpos]
    · simp
  refine ⟨?_, ?_⟩
  · intro h
    -- the top bit of the shifted register is the bit that fell out
    have hlow : (s.getLsbD 0 ^^ b) = false := by
      have htop := h (w - 1)
      rw [lfsrStep, getLsbD_lfsrShift, htap, hbit, hbit,
        List.getD_eq_getElem?_getD, List.getElem?_eq_none (by omega),
        BitVec.getLsbD_of_ge s _ (by omega)] at htop
      simpa using htop
    intro i
    rcases i with _ | i
    · simpa using hlow
    · have hi := h i
      rw [lfsrStep, getLsbD_lfsrShift, hbit, hbit] at hi
      simp only [decide_true, Bool.true_and, hlow] at hi
      simpa using hi
  · intro h i
    have h0 : s.getLsbD 0 = b := h 0
    have hi := h (i + 1)
    rw [lfsrStep, getLsbD_lfsrShift, hbit, hbit, h0, hi]
    simp

/-- At most `w` bits clear a register exactly when it holds them. -/
theorem lfsrFeed_eq_zero_iff (s : BitVec w) {bits : List Bool} (hlen : bits.length ≤ w) :
    lfsrFeed taps s bits = 0#w ↔ HoldsBits s bits := by
  induction bits generalizing s with
  | nil =>
      refine ⟨?_, ?_⟩
      · rintro h i
        rw [lfsrFeed_nil] at h
        simp [h]
      · intro h
        apply BitVec.eq_of_getLsbD_eq
        intro i _
        simpa using h i
  | cons b bits ih =>
      rw [List.length_cons] at hlen
      rw [lfsrFeed_cons, ih _ (by omega), lfsrStep_holdsBits htap s b (by omega)]

theorem lfsrFeed_zeros_eq_zero {s : BitVec w} {n : Nat}
    (h : lfsrFeed taps s (List.replicate n false) = 0#w) : s = 0#w := by
  induction n generalizing s with
  | zero => exact h
  | succ n ih =>
      rw [List.replicate_succ, lfsrFeed_cons] at h
      have hstep : lfsrFeed taps s [false] = 0#w := ih h
      rw [lfsrFeed_eq_zero_iff htap s (show [false].length ≤ w from width_pos htap)] at hstep
      apply BitVec.eq_of_getLsbD_eq
      intro i _
      rcases i with _ | i
      · simpa using hstep 0
      · simpa using hstep (i + 1)

/-- Bits can be put into the register before it shifts. -/
theorem lfsrFeed_absorb (s : BitVec w) {word : BitVec w} {bits : List Bool}
    (hlen : bits.length ≤ w) (hword : HoldsBits word bits) :
    lfsrFeed taps s bits = lfsrFeed taps (s ^^^ word) (List.replicate bits.length false) := by
  have hsplit : List.zipWith xor (List.replicate bits.length false) bits = bits := by
    apply List.ext_getElem
    · simp
    · intro i h₁ h₂
      simp
  have hfeed := lfsrFeed_xor taps (s ^^^ word) word
    (show (List.replicate bits.length false).length = bits.length from List.length_replicate)
  rw [hsplit, (lfsrFeed_eq_zero_iff htap word hlen).mpr hword, BitVec.xor_zero, BitVec.xor_assoc,
    BitVec.xor_self, BitVec.xor_zero] at hfeed
  exact hfeed

/-- A window of at most `w` bits, not all zero, never leaves the register cleared. -/
theorem lfsrFeed_burst {burst : List Bool} (hlen : burst.length ≤ w) (hone : true ∈ burst)
    (m n : Nat) :
    lfsrFeed taps 0#w (List.replicate m false ++ (burst ++ List.replicate n false)) ≠ 0#w := by
  intro h
  rw [lfsrFeed_append, lfsrFeed_zeros, lfsrFeed_append] at h
  have hzero := lfsrFeed_zeros_eq_zero htap h
  rw [lfsrFeed_eq_zero_iff htap _ hlen] at hzero
  obtain ⟨i, hi, hbit⟩ := List.getElem_of_mem hone
  have hi' := hzero i
  rw [List.getD_eq_getElem?_getD, List.getElem?_eq_getElem hi, hbit] at hi'
  simp at hi'

end HighTap

-- ============================================================================
-- Registers with an odd number of taps
-- ============================================================================

/-- The parity of a string of bits. -/
def parity (bits : List Bool) : Bool := bits.foldr xor false

/-- The parity of a register. -/
def wordParity (s : BitVec w) : Bool := parity ((List.range w).map s.getLsbD)

section Parity

@[simp] theorem parity_cons (b : Bool) (bits : List Bool) :
    parity (b :: bits) = (b ^^ parity bits) := rfl

theorem parity_append (as bs : List Bool) : parity (as ++ bs) = (parity as ^^ parity bs) := by
  induction as with
  | nil => exact (Bool.false_xor _).symm
  | cons a as ih => rw [List.cons_append, parity_cons, ih, parity_cons, Bool.xor_assoc]

theorem parity_map_xor (f g : Nat → Bool) (is : List Nat) :
    parity (is.map fun i => f i ^^ g i) = (parity (is.map f) ^^ parity (is.map g)) := by
  induction is with
  | nil => rfl
  | cons i is ih =>
      simp only [List.map_cons, parity_cons, ih, Bool.xor_assoc, Bool.xor_left_comm (g i)]

theorem parity_map_and (b : Bool) (f : Nat → Bool) (is : List Nat) :
    parity (is.map fun i => b && f i) = (b && parity (is.map f)) := by
  induction is with
  | nil => exact (Bool.and_false b).symm
  | cons i is ih => simp only [List.map_cons, parity_cons, ih, Bool.and_xor_distrib_left]

theorem parity_eq_true_iff (bits : List Bool) : parity bits = true ↔ bits.count true % 2 = 1 := by
  induction bits with
  | nil => simp [parity]
  | cons b bits ih =>
      rw [parity_cons]
      cases b with
      | false =>
          rw [Bool.false_xor, ih, List.count_cons_of_ne (by decide)]
      | true =>
          rw [Bool.true_xor, Bool.not_eq_true', ← Bool.not_eq_true, ih, List.count_cons_self]
          omega

theorem wordParity_xor (s t : BitVec w) :
    wordParity (s ^^^ t) = (wordParity s ^^ wordParity t) := by
  rw [wordParity, wordParity, wordParity, ← parity_map_xor]
  congr 1
  apply List.map_congr_left
  intro i _
  rw [BitVec.getLsbD_xor]

/-- The parity of all bits but the lowest. -/
theorem parity_shifted (s : BitVec w) :
    parity ((List.range w).map fun i => s.getLsbD (i + 1)) = (s.getLsbD 0 ^^ wordParity s) := by
  have hlow : parity ((List.range (w + 1)).map s.getLsbD)
      = (s.getLsbD 0 ^^ parity ((List.range w).map fun i => s.getLsbD (i + 1))) := by
    rw [List.range_succ_eq_map, List.map_cons, parity_cons, List.map_map]
    rfl
  have hhigh : parity ((List.range (w + 1)).map s.getLsbD) = wordParity s := by
    rw [List.range_succ, List.map_append, parity_append, List.map_singleton, parity_cons,
      BitVec.getLsbD_of_ge s w (Nat.le_refl w)]
    exact Bool.xor_false _
  rw [← hhigh, hlow, ← Bool.xor_assoc, Bool.xor_self, Bool.false_xor]

variable {taps : BitVec w} (htaps : wordParity taps = true)

include htaps

theorem wordParity_lfsrShift (s : BitVec w) : wordParity (lfsrShift taps s) = wordParity s := by
  have hbits : (List.range w).map (lfsrShift taps s).getLsbD
      = (List.range w).map fun i => s.getLsbD (i + 1) ^^ (s.getLsbD 0 && taps.getLsbD i) :=
    List.map_congr_left fun i _ => getLsbD_lfsrShift s i
  rw [wordParity, hbits, parity_map_xor, parity_map_and, parity_shifted]
  show ((s.getLsbD 0 ^^ wordParity s) ^^ (s.getLsbD 0 && wordParity taps)) = wordParity s
  rw [htaps, Bool.and_true, Bool.xor_comm (s.getLsbD 0), Bool.xor_assoc, Bool.xor_self,
    Bool.xor_false]

theorem wordParity_ofBool (b : Bool) : wordParity ((BitVec.ofBool b).setWidth w) = b := by
  cases w with
  | zero =>
      rw [wordParity, List.range_zero] at htaps
      cases htaps
  | succ n =>
      have hbits : ((List.range n).map Nat.succ).map
          ((BitVec.ofBool b).setWidth (n + 1)).getLsbD = (List.range n).map fun _ => false && b := by
        rw [List.map_map]
        apply List.map_congr_left
        intro i _
        simp
      rw [wordParity, List.range_succ_eq_map, List.map_cons, parity_cons, hbits,
        parity_map_and false (fun _ => b)]
      simp

/-- The register keeps the parity of what it was fed. -/
theorem wordParity_lfsrFeed (s : BitVec w) (bits : List Bool) :
    wordParity (lfsrFeed taps s bits) = (wordParity s ^^ parity bits) := by
  induction bits generalizing s with
  | nil => exact (Bool.xor_false _).symm
  | cons b bits ih =>
      rw [lfsrFeed_cons, ih, lfsrStep, wordParity_lfsrShift htaps, wordParity_xor,
        wordParity_ofBool htaps, parity_cons, Bool.xor_assoc]

/-- An odd number of ones never leaves the register cleared. -/
theorem lfsrFeed_odd {bits : List Bool} (hodd : bits.count true % 2 = 1) :
    lfsrFeed taps 0#w bits ≠ 0#w := by
  intro h
  have hkeep := wordParity_lfsrFeed htaps 0#w bits
  rw [h, (parity_eq_true_iff bits).mpr hodd, Bool.xor_true] at hkeep
  cases hzero : wordParity 0#w with
  | false => rw [hzero] at hkeep; cases hkeep
  | true => rw [hzero] at hkeep; cases hkeep

end Parity

end LinuxCodeDemos.Lib

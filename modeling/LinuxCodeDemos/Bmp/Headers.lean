/-
  LinuxCodeDemos.Bmp.Headers

  What `load_bmp` makes of any header.

  The indexes of both loops do not depend on the pixels: `indexTurn` is their common turn.  The
  loops advance unless a row has neither pixels nor padding, and the skip over the padding overflows
  only behind the last row end before the bound (`loopEnds_nat_iff`).  `convert_to_rgb` never leaves
  the block; `reverse_pixel_array` takes the opposite row from the height, which nothing relates to
  the size of the block (`loadBmp_ok_iff`).
-/

import LinuxCodeDemos.Bmp.Passes

namespace LinuxCodeDemos.Bmp

open Lib

-- ============================================================================
-- Indexes
-- ============================================================================

/-- The locals that both loops have in common. -/
structure Index where
  i : Nat
  rowPos : Nat
  deriving DecidableEq, Repr

/-- What a turn of either loop does to them. -/
def indexTurn (img : Image) (x : Index) : Except Fault Index :=
  if x.rowPos = img.rowLength then do
    let i ← skipPadding img x.i
    .ok { i, rowPos := 0 }
  else .ok { i := x.i + 1, rowPos := x.rowPos + 1 }

/-- The indexes of a loop `for (i = 0; i < bound; i++)`. -/
def indexLoop (img : Image) (bound : Int) (turns : Nat) : Except Fault (Option Index) :=
  whileLoop (fun x : Index => (x.i : Int) < bound) (indexTurn img) turns { i := 0, rowPos := 0 }

/-- The loop comes to its end. -/
def LoopEnds (img : Image) (bound : Int) : Prop :=
  ∃ turns last, indexLoop img bound turns = .ok (some last)

/-- The row end that is the last one before byte `n`. -/
def lastRowEnd (img : Image) (n : Nat) : Nat :=
  cellAt img.stride ((n - 1 - img.rowLength) / img.stride) img.rowLength

/-- The padding behind the row ends before byte `n` can be skipped in an `int`. -/
def SkipsFit (img : Image) (n : Nat) : Prop :=
  img.rowLength < n → lastRowEnd img n + img.padding ≤ intMax

/-- The loop is in front of byte `c` of row `r`. -/
structure At (img : Image) (x : Index) (r c : Nat) : Prop where
  i : x.i = cellAt img.stride r c
  rowPos : x.rowPos = c
  inRow : c ≤ img.rowLength

/-- How far a loop is from byte `n`. -/
def indexLeft (img : Image) (n : Nat) (x : Index) : Nat :=
  2 * (n - x.i) + if x.rowPos = img.rowLength ∧ x.rowPos ≠ 0 then 1 else 0

section Indexes

variable {img : Image} {x x' : Index} {r c n : Nat}

theorem at_start (img : Image) : At img { i := 0, rowPos := 0 } 0 0 :=
  ⟨by rw [cellAt, Nat.zero_mul], rfl, Nat.zero_le _⟩

/-- Behind the padding the next row begins. -/
theorem At.skip (h : At img x r img.rowLength) :
    At img { i := x.i + img.padding, rowPos := 0 } (r + 1) 0 := by
  refine ⟨?_, rfl, Nat.zero_le _⟩
  show x.i + img.padding = _
  rw [h.i, cellAt, cellAt, Nat.succ_mul, Image.stride]
  omega

theorem At.next (h : At img x r c) (hc : c < img.rowLength) :
    At img { i := x.i + 1, rowPos := x.rowPos + 1 } r (c + 1) := by
  refine ⟨?_, ?_, hc⟩
  · show x.i + 1 = _
    rw [h.i, cellAt, cellAt, Nat.add_assoc]
  · show x.rowPos + 1 = _
    rw [h.rowPos]

theorem indexTurn_next (h : At img x r c) (hc : c < img.rowLength) :
    indexTurn img x = .ok { i := x.i + 1, rowPos := x.rowPos + 1 } :=
  if_neg (by rw [h.rowPos]; omega)

theorem indexTurn_skip (h : At img x r img.rowLength) (hfit : x.i + img.padding ≤ intMax) :
    indexTurn img x = .ok { i := x.i + img.padding, rowPos := 0 } := by
  rw [indexTurn, if_pos h.rowPos, skipPadding, if_pos hfit]
  rfl

/-- The padding behind a row end is skipped, or the sum is no `int`. -/
theorem indexTurn_overflow (h : At img x r img.rowLength) (hfit : intMax < x.i + img.padding) :
    indexTurn img x = .error .overflow := by
  rw [indexTurn, if_pos h.rowPos, skipPadding, if_neg (Nat.not_le.mpr hfit)]
  rfl

theorem indexLeft_start (img : Image) (n : Nat) :
    indexLeft img n { i := 0, rowPos := 0 } < 2 * n + 1 := by
  simp only [indexLeft]
  rw [if_neg (by omega)]
  omega

theorem indexLeft_next (hi : x.i < n) (hx' : x'.i = x.i + 1) :
    indexLeft img n x' < indexLeft img n x := by
  simp only [indexLeft, hx']
  split <;> split <;> omega

theorem indexLeft_skip (hi : x.i < n) (hrow : x.rowPos = img.rowLength) (hadvances : 0 < img.stride)
    (hx' : x' = { i := x.i + img.padding, rowPos := 0 }) :
    indexLeft img n x' < indexLeft img n x := by
  subst hx'
  rw [Image.stride] at hadvances
  simp only [indexLeft]
  rw [if_neg (by omega)]
  split <;> omega

/-- Row ends before byte `n` are not behind the last one. -/
theorem At.le_lastRowEnd (h : At img x r img.rowLength) (hadvances : 0 < img.stride)
    (hi : x.i < n) : x.i ≤ lastRowEnd img n := by
  have hrow := h.i
  rw [cellAt] at hrow
  have hdiv : r ≤ (n - 1 - img.rowLength) / img.stride := by
    rw [Nat.le_div_iff_mul_le hadvances]
    omega
  have hmul := Nat.mul_le_mul_right img.stride hdiv
  rw [lastRowEnd, cellAt, hrow]
  omega

/-- A loop that advances and can skip its padding comes to its end. -/
theorem indexLoop_ends (hadvances : n = 0 ∨ 0 < img.stride) (hfit : SkipsFit img n) :
    ∃ last, indexLoop img n (2 * n + 1) = .ok (some last) := by
  have hturn : ∀ x : Index, (∃ r c, At img x r c) → decide ((x.i : Int) < (n : Int)) = true →
      ∃ x', indexTurn img x = .ok x' ∧ (∃ r c, At img x' r c) ∧
        indexLeft img n x' < indexLeft img n x := by
    rintro x ⟨r, c, hx⟩ hcond
    rw [decide_eq_true_iff, Int.ofNat_lt] at hcond
    have hstride : 0 < img.stride := by omega
    by_cases hc : c = img.rowLength
    · subst hc
      have hle := hx.le_lastRowEnd hstride hcond
      have hrow := hx.i
      rw [cellAt] at hrow
      have hsum := hfit (by omega)
      exact ⟨_, indexTurn_skip hx (by omega), ⟨_, _, hx.skip⟩,
        indexLeft_skip hcond hx.rowPos hstride rfl⟩
    · have hlt : c < img.rowLength := Nat.lt_of_le_of_ne hx.inRow hc
      exact ⟨_, indexTurn_next hx hlt, ⟨_, _, hx.next hlt⟩, indexLeft_next hcond rfl⟩
  obtain ⟨last, hrun, -⟩ := whileLoop_ends (indexLeft img n) hturn ⟨0, 0, at_start img⟩
    (indexLeft_start img n)
  exact ⟨last, hrun⟩

/-- A row without pixels and without padding keeps the loop at the start. -/
theorem indexLoop_endless (hn : 0 < n) (hstride : img.stride = 0) (turns : Nat) :
    indexLoop img n turns = .ok none := by
  rw [Image.stride] at hstride
  have hturn : ∀ x : Index, x = { i := 0, rowPos := 0 } →
      decide ((x.i : Int) < (n : Int)) = true ∧
        ∃ x', indexTurn img x = .ok x' ∧ x' = { i := 0, rowPos := 0 } := by
    rintro x rfl
    refine ⟨decide_eq_true (Int.ofNat_lt.mpr hn), _, ?_, rfl⟩
    rw [indexTurn, if_pos (show 0 = img.rowLength by omega), skipPadding,
      show img.padding = 0 by omega, if_pos (Nat.zero_le _)]
    rfl
  exact whileLoop_endless hturn turns rfl

/-- A row end whose padding does not fit an `int` is reached. -/
theorem indexLoop_overflows (hn : n ≤ intMax) (hfit : ¬ SkipsFit img n) :
    ∃ e, indexLoop img n (2 * n + 1) = .error e := by
  rw [SkipsFit, Classical.not_imp, Nat.not_le] at hfit
  obtain ⟨hrow, hover⟩ := hfit
  rw [lastRowEnd, cellAt] at hover
  obtain ⟨q, hq⟩ : ∃ q, (n - 1 - img.rowLength) / img.stride = q := ⟨_, rfl⟩
  have hend : q * img.stride + img.rowLength < n := by
    have hdiv := Nat.div_mul_le_self (n - 1 - img.rowLength) img.stride
    rw [hq] at hdiv
    omega
  rw [hq] at hover
  have hstride : 0 < img.stride := by
    rw [Image.stride]
    omega
  have hturn : ∀ x : Index, (∃ r c, At img x r c ∧ r ≤ q) →
      decide ((x.i : Int) < (n : Int)) = true ∧
        ((∃ e, indexTurn img x = .error e) ∨
          ∃ x', indexTurn img x = .ok x' ∧ (∃ r c, At img x' r c ∧ r ≤ q) ∧
            indexLeft img n x' < indexLeft img n x) := by
    rintro x ⟨r, c, hx, hr⟩
    have hi := hx.i
    have hin := hx.inRow
    have hrows := Nat.mul_le_mul_right img.stride hr
    rw [cellAt] at hi
    have hlt : x.i < n := by omega
    refine ⟨decide_eq_true (Int.ofNat_lt.mpr hlt), ?_⟩
    by_cases hc : c = img.rowLength
    · subst hc
      rcases Nat.lt_or_ge r q with hless | hge
      · have hnext := Nat.mul_le_mul_right img.stride (show r + 1 ≤ q from hless)
        rw [Nat.succ_mul] at hnext
        have hsum : img.stride = img.rowLength + img.padding := rfl
        exact .inr ⟨_, indexTurn_skip hx (by omega), ⟨_, _, hx.skip, hless⟩,
          indexLeft_skip hlt hx.rowPos hstride rfl⟩
      · obtain rfl : r = q := Nat.le_antisymm hr hge
        exact .inl ⟨_, indexTurn_overflow hx (by omega)⟩
    · have hbyte : c < img.rowLength := Nat.lt_of_le_of_ne hin hc
      exact .inr ⟨_, indexTurn_next hx hbyte, ⟨_, _, hx.next hbyte, hr⟩, indexLeft_next hlt rfl⟩
  exact whileLoop_stops (indexLeft img n) hturn ⟨0, 0, at_start img, Nat.zero_le _⟩
    (indexLeft_start img n)

/-- A loop that has come to a fault does not come to its end. -/
theorem not_loopEnds_of_error {bound : Int} {turns : Nat} {e : Fault}
    (h : indexLoop img bound turns = .error e) : ¬ LoopEnds img bound := by
  rintro ⟨turns', last, hlast⟩
  have hmore : indexLoop img bound (turns + turns') = .error e := by
    rw [← h]
    refine whileLoop_add turns' ?_
    rw [show whileLoop _ _ turns _ = _ from h]
    exact fun heq => by cases heq
  have hmore' : indexLoop img bound (turns' + turns) = .ok (some last) := by
    rw [← hlast]
    refine whileLoop_add turns ?_
    rw [show whileLoop _ _ turns' _ = _ from hlast]
    exact fun heq => by cases heq
  rw [Nat.add_comm, hmore'] at hmore
  cases hmore

/-- A loop over `n` bytes comes to its end exactly if it advances and can skip its padding. -/
theorem loopEnds_nat_iff (hn : n ≤ intMax) :
    LoopEnds img n ↔ (n = 0 ∨ 0 < img.stride) ∧ SkipsFit img n := by
  refine ⟨?_, ?_⟩
  · intro hends
    refine ⟨?_, ?_⟩
    · by_contra hstuck
      obtain ⟨turns, last, hlast⟩ := hends
      rw [indexLoop_endless (by omega) (by omega)] at hlast
      cases hlast
    · by_contra hfit
      obtain ⟨e, he⟩ := indexLoop_overflows hn hfit
      exact not_loopEnds_of_error he hends
  · rintro ⟨hadvances, hfit⟩
    obtain ⟨last, hlast⟩ := indexLoop_ends hadvances hfit
    exact ⟨_, last, hlast⟩

/-- In the lower half of a block no skip overflows. -/
theorem skipsFit_half (hn : n ≤ intMax) (hpadding : img.padding < 4) : SkipsFit img (n / 2) := by
  intro hrow
  have hdiv := Nat.div_mul_le_self (n / 2 - 1 - img.rowLength) img.stride
  rw [intMax] at hn ⊢
  rw [lastRowEnd, cellAt]
  omega

end Indexes

-- ============================================================================
-- `convert_to_rgb`
-- ============================================================================

def Convert.index (s : Convert) : Index := { i := s.i, rowPos := s.rowPos }

/-- The block has `n` bytes, and the bytes of a pixel that were passed are in front of the loop. -/
structure Passed (n : Nat) (s : Convert) : Prop where
  length : s.pixels.length = n
  green : s.flag = .green → 1 ≤ s.i
  red : s.flag = .red → 2 ≤ s.i

section Converts

variable {img : Image} {s s' : Convert} {n : Nat}

theorem convertTurn_skip (hrow : s.rowPos = img.rowLength) :
    convertTurn img s = (skipPadding img s.i).map fun i => { s with rowPos := 0, i } := by
  rw [convertTurn, if_pos hrow]
  cases skipPadding img s.i with
  | error e => rfl
  | ok i => rfl

/-- Inside a row `convert_to_rgb` stays in the block. -/
theorem Passed.convertTurn_byte (h : Passed n s) (hrow : s.rowPos ≠ img.rowLength) (hi : s.i < n) :
    ∃ s', convertTurn img s = .ok s' ∧ s'.i = s.i + 1 ∧ s'.rowPos = s.rowPos + 1 ∧ Passed n s' := by
  have hlen := h.length
  have hlt : s.i < s.pixels.length := by omega
  rw [convertTurn, if_neg hrow]
  cases hflag : s.flag with
  | blue =>
      rw [load_of_lt hlt]
      exact ⟨_, rfl, rfl, rfl, hlen, fun _ => Nat.le_add_left _ _, fun hred => by cases hred⟩
  | green =>
      have hone := h.green hflag
      exact ⟨_, rfl, rfl, rfl, hlen, fun hgreen => (by cases hgreen),
        fun _ => Nat.succ_le_succ hone⟩
  | red =>
      have htwo := h.red hflag
      have hback : s.i - 2 < s.pixels.length := by omega
      have hset : s.i < (s.pixels.set (s.i - 2) s.pixels[s.i]).length := by
        rw [List.length_set]
        exact hlt
      refine ⟨{ s with
        pixels := (s.pixels.set (s.i - 2) s.pixels[s.i]).set s.i s.temp
        flag := .blue, rowPos := s.rowPos + 1, i := s.i + 1 }, ?_, rfl, rfl, ?_, ?_, ?_⟩
      · simp only
        rw [bind_of_ok (load_of_lt hlt), bind_of_ok (store_single hback _),
          bind_of_ok (store_single hset _)]
      · rw [List.length_set, List.length_set, hlen]
      · exact fun hgreen => by cases hgreen
      · exact fun hred => by cases hred

/-- The turns of `convert_to_rgb` are the turns of its indexes. -/
theorem Passed.convertTurn_index (h : Passed n s) (hi : s.i < n) :
    (convertTurn img s).map Convert.index = indexTurn img s.index := by
  by_cases hrow : s.rowPos = img.rowLength
  · rw [convertTurn_skip hrow, indexTurn, if_pos (show s.index.rowPos = _ from hrow)]
    show Except.map _ (Except.map _ (skipPadding img s.i)) = (skipPadding img s.i >>= _)
    cases skipPadding img s.i with
    | error e => rfl
    | ok i => rfl
  · obtain ⟨s', hturn, hi', hrow', -⟩ := h.convertTurn_byte hrow hi
    rw [hturn, indexTurn, if_neg (show s.index.rowPos ≠ _ from hrow)]
    show Except.ok s'.index = _
    rw [Convert.index, hi', hrow']
    rfl

theorem Passed.convertTurn (h : Passed n s) (hi : s.i < n) (hturn : convertTurn img s = .ok s') :
    Passed n s' := by
  by_cases hrow : s.rowPos = img.rowLength
  · rw [convertTurn_skip hrow, skipPadding] at hturn
    split at hturn
    · cases hturn
      refine ⟨h.length, fun hgreen => ?_, fun hred => ?_⟩
      · exact Nat.le_trans (h.green hgreen) (Nat.le_add_right _ _)
      · exact Nat.le_trans (h.red hred) (Nat.le_add_right _ _)
    · cases hturn
  · obtain ⟨t, ht, -, -, hpassed⟩ := h.convertTurn_byte hrow hi
    rw [hturn] at ht
    cases ht
    exact hpassed

/-- `convert_to_rgb` ends, goes on or faults as its indexes do. -/
theorem convertToRgb_index (hlen : img.pixelArray.length = n) (hsize : img.pixelArraySize = n) :
    (∃ e, convertToRgb img = .error e ∧ indexLoop img n (2 * n + 1) = .error e) ∨
    (convertToRgb img = .ok none ∧ indexLoop img n (2 * n + 1) = .ok none) ∨
    ∃ pixels last, convertToRgb img = .ok (some pixels) ∧ pixels.length = n ∧
      indexLoop img n (2 * n + 1) = .ok (some last) := by
  obtain ⟨start, hstart⟩ : ∃ start : Convert,
      start = { i := 0, rowPos := 0, flag := .blue, temp := 0, pixels := img.pixelArray } :=
    ⟨_, rfl⟩
  have hpassed : Passed n start := by
    subst hstart
    exact ⟨hlen, fun hgreen => (by cases hgreen), fun hred => (by cases hred)⟩
  have hlt : ∀ s : Convert, decide ((s.i : Int) < (n : Int)) = true → s.i < n := by
    intro s hcond
    rwa [decide_eq_true_iff, Int.ofNat_lt] at hcond
  have hkeep : ∀ s s' : Convert, Passed n s → decide ((s.i : Int) < (n : Int)) = true →
      convertTurn img s = .ok s' → Passed n s' :=
    fun s s' hs hcond hturn => hs.convertTurn (hlt s hcond) hturn
  have hview := @whileLoop_view Convert Fault Index Convert.index
    (fun s => decide ((s.i : Int) < (n : Int))) (convertTurn img)
    (fun x => decide ((x.i : Int) < (n : Int))) (indexTurn img) (Passed n) (fun _ => rfl)
    (fun s hs hcond => hs.convertTurn_index (hlt s hcond)) hkeep (2 * n + 1) start hpassed
  have hindex : start.index = { i := 0, rowPos := 0 } := by
    rw [hstart]
    rfl
  rw [hindex] at hview
  have hloop : convertToRgb img = (whileLoop (fun s : Convert => decide ((s.i : Int) < (n : Int)))
      (convertTurn img) (2 * n + 1) start >>= fun s => .ok (s.map Convert.pixels)) := by
    rw [convertToRgb, hsize, Int.toNat_natCast, hstart]
  cases hrun : whileLoop (fun s : Convert => decide ((s.i : Int) < (n : Int))) (convertTurn img)
      (2 * n + 1) start with
  | error e =>
      rw [hrun] at hview hloop
      exact .inl ⟨e, hloop, hview.symm⟩
  | ok s =>
      rw [hrun] at hview hloop
      cases s with
      | none => exact .inr (.inl ⟨hloop, hview.symm⟩)
      | some s =>
          refine .inr (.inr ⟨s.pixels, s.index, hloop, ?_, hview.symm⟩)
          exact (whileLoop_keeps hkeep hpassed hrun).length

variable (hlen : img.pixelArray.length = n) (hsize : img.pixelArraySize = n)
include hlen hsize

theorem convertToRgb_overflows (hn : n ≤ intMax) (hfit : ¬ SkipsFit img n) :
    ∃ e, convertToRgb img = .error e := by
  obtain ⟨e, he⟩ := indexLoop_overflows hn hfit
  rcases convertToRgb_index hlen hsize with
    ⟨e', hconvert, -⟩ | ⟨-, hnone⟩ | ⟨rgb, last, -, -, hlast⟩
  · exact ⟨e', hconvert⟩
  · rw [he] at hnone
    cases hnone
  · rw [he] at hlast
    cases hlast

theorem convertToRgb_endless (hn : 0 < n) (hstride : img.stride = 0) :
    convertToRgb img = .ok none := by
  have hstuck := indexLoop_endless hn hstride (2 * n + 1)
  rcases convertToRgb_index hlen hsize with
    ⟨e, -, he⟩ | ⟨hnone, -⟩ | ⟨rgb, last, -, -, hlast⟩
  · rw [hstuck] at he
    cases he
  · exact hnone
  · rw [hstuck] at hlast
    cases hlast

theorem convertToRgb_ends (hadvances : n = 0 ∨ 0 < img.stride) (hfit : SkipsFit img n) :
    ∃ rgb, convertToRgb img = .ok (some rgb) ∧ rgb.length = n := by
  obtain ⟨last, hlast⟩ := indexLoop_ends hadvances hfit
  rcases convertToRgb_index hlen hsize with ⟨e, -, he⟩ | ⟨-, hnone⟩ | ⟨rgb, -, hrgb, hlength, -⟩
  · rw [hlast] at he
    cases he
  · rw [hlast] at hnone
    cases hnone
  · exact ⟨rgb, hrgb, hlength⟩

/-- `convert_to_rgb` comes to its end exactly if its loop advances and can skip its padding. -/
theorem convertToRgb_some_iff (hn : n ≤ intMax) :
    (∃ pixels, convertToRgb img = .ok (some pixels)) ↔
      (n = 0 ∨ 0 < img.stride) ∧ SkipsFit img n := by
  refine ⟨?_, ?_⟩
  · rintro ⟨pixels, hpixels⟩
    refine ⟨?_, ?_⟩
    · by_contra hstuck
      rw [convertToRgb_endless hlen hsize (by omega) (by omega)] at hpixels
      cases hpixels
    · by_contra hfit
      obtain ⟨e, he⟩ := convertToRgb_overflows hlen hsize hn hfit
      rw [he] at hpixels
      cases hpixels
  · rintro ⟨hadvances, hfit⟩
    obtain ⟨pixels, hpixels, -⟩ := convertToRgb_ends hlen hsize hadvances hfit
    exact ⟨pixels, hpixels⟩

end Converts

-- ============================================================================
-- `reverse_pixel_array`
-- ============================================================================

def Reverse.index (s : Reverse) : Index := { i := s.i, rowPos := s.rowPos }

/-- The loop is in front of byte `c` of row `r`, over a block of `n` bytes. -/
structure Facing (img : Image) (n : Nat) (s : Reverse) (r c : Nat) : Prop where
  here : At img s.index r c
  rowCount : s.rowCount = r + 1
  opposite : s.oppositeRowI = oppositeRow img (r + 1) + c
  length : s.pixels.length = n

/-- The bytes opposite to the lower half are in the block. -/
def OppositesIn (img : Image) (n : Nat) : Prop :=
  ∀ r c, c < img.rowLength → cellAt img.stride r c < n / 2 → oppositeRow img (r + 1) + c < n

section Reverses

variable {img : Image} {s s' : Reverse} {n r c : Nat}

theorem reverseTurn_skip (hrow : s.rowPos = img.rowLength) :
    reverseTurn img s = (skipPadding img s.i).map fun i =>
      { s with
        rowCount := s.rowCount + 1
        oppositeRowI := oppositeRow img (s.rowCount + 1)
        rowPos := 0
        i } := by
  rw [reverseTurn, if_pos hrow]
  cases skipPadding img s.i with
  | error e => rfl
  | ok i => rfl

/-- Behind the padding the loop faces the next row. -/
theorem Facing.skip (h : Facing img n s r img.rowLength) :
    Facing img n
      { s with
        rowCount := s.rowCount + 1
        oppositeRowI := oppositeRow img (s.rowCount + 1)
        rowPos := 0
        i := s.i + img.padding } (r + 1) 0 := by
  refine ⟨h.here.skip, ?_, ?_, h.length⟩
  · show s.rowCount + 1 = _
    rw [h.rowCount]
  · show oppositeRow img (s.rowCount + 1) = _
    rw [h.rowCount]
    exact (Nat.add_zero _).symm

/-- A byte whose opposite is in the block. -/
theorem Facing.reverseTurn_byte (h : Facing img n s r c) (hc : c < img.rowLength) (hi : s.i < n)
    (hopposite : oppositeRow img (r + 1) + c < n) :
    ∃ s', reverseTurn img s = .ok s' ∧ s'.index = { i := s.i + 1, rowPos := s.rowPos + 1 } ∧
      Facing img n s' r (c + 1) := by
  have hrow : s.rowPos ≠ img.rowLength := by
    rw [show s.rowPos = c from h.here.rowPos]
    omega
  have hlt : s.i < s.pixels.length := by rw [h.length]; exact hi
  have hlt' : s.oppositeRowI < s.pixels.length := by rw [h.length, h.opposite]; exact hopposite
  have hset : s.oppositeRowI < (s.pixels.set s.i s.pixels[s.oppositeRowI]).length := by
    rw [List.length_set]
    exact hlt'
  refine ⟨{ s with
    pixels := (s.pixels.set s.i s.pixels[s.oppositeRowI]).set s.oppositeRowI s.pixels[s.i]
    oppositeRowI := s.oppositeRowI + 1, rowPos := s.rowPos + 1, i := s.i + 1 }, ?_, rfl,
    h.here.next hc, h.rowCount, ?_, ?_⟩
  · rw [reverseTurn, if_neg hrow, bind_of_ok (load_of_lt hlt), bind_of_ok (load_of_lt hlt'),
      bind_of_ok (store_single hlt _), bind_of_ok (store_single hset _)]
  · show s.oppositeRowI + 1 = _
    rw [h.opposite, Nat.add_assoc]
  · rw [List.length_set, List.length_set, h.length]

/-- One whose opposite is outside. -/
theorem Facing.reverseTurn_error (h : Facing img n s r c) (hc : c < img.rowLength) (hi : s.i < n)
    (hopposite : n ≤ oppositeRow img (r + 1) + c) : reverseTurn img s = .error .read := by
  have hrow : s.rowPos ≠ img.rowLength := by
    rw [show s.rowPos = c from h.here.rowPos]
    omega
  have hlt : s.i < s.pixels.length := by rw [h.length]; exact hi
  have hnone : s.pixels[s.oppositeRowI]? = none :=
    List.getElem?_eq_none (by rw [h.length, h.opposite]; exact hopposite)
  rw [reverseTurn, if_neg hrow, bind_of_ok (load_of_lt hlt), load, hnone]
  rfl

/-- The pixels that `reverse_pixel_array` is called with. -/
def Reverse.start (img : Image) : Reverse :=
  { i := 0, rowPos := 0, rowCount := 1, oppositeRowI := oppositeRow img 1
    pixels := img.pixelArray }

theorem facing_start (hlen : img.pixelArray.length = n) : Facing img n (.start img) 0 0 := by
  refine ⟨at_start img, rfl, ?_, hlen⟩
  rw [Nat.zero_add, Nat.add_zero, Reverse.start]

theorem reversePixelArray_loop (hsize : img.pixelArraySize = n) :
    reversePixelArray img = (whileLoop (fun s : Reverse => decide ((s.i : Int) < (n / 2 : Nat)))
      (reverseTurn img) (2 * (n / 2) + 1) (.start img) >>=
        fun s => .ok (s.map Reverse.pixels)) := by
  have hhalf : img.pixelArraySize.tdiv 2 = (n / 2 : Nat) := by
    rw [hsize]
    rfl
  simp only [reversePixelArray, hhalf, Int.toNat_natCast]
  rfl

/-- One turn, seen from its indexes, and what it keeps. -/
theorem Facing.reverseTurn_index (h : Facing img n s r c) (hin : OppositesIn img n)
    (hi : s.i < n / 2) :
    (reverseTurn img s).map Reverse.index = indexTurn img s.index ∧
      ∀ s', reverseTurn img s = .ok s' → ∃ r c, Facing img n s' r c := by
  by_cases hc : c = img.rowLength
  · subst hc
    have hrow : s.rowPos = img.rowLength := h.here.rowPos
    rw [reverseTurn_skip hrow, indexTurn, if_pos (show s.index.rowPos = _ from hrow)]
    show Except.map _ (Except.map _ (skipPadding img s.i)) = (skipPadding img s.i >>= _) ∧ _
    rw [skipPadding]
    split
    · refine ⟨rfl, fun s' hs' => ?_⟩
      cases hs'
      exact ⟨_, _, h.skip⟩
    · refine ⟨rfl, fun s' hs' => ?_⟩
      cases hs'
  · have hbyte : c < img.rowLength := Nat.lt_of_le_of_ne h.here.inRow hc
    have hcell : cellAt img.stride r c < n / 2 := h.here.i ▸ hi
    obtain ⟨t, ht, hindex, hnext⟩ := h.reverseTurn_byte hbyte (by omega) (hin r c hbyte hcell)
    rw [ht, indexTurn_next h.here hbyte]
    refine ⟨congrArg Except.ok hindex, fun s' hs' => ?_⟩
    cases hs'
    exact ⟨_, _, hnext⟩

/-- If all opposite bytes are in the block, the loop ends or goes on as its indexes do. -/
theorem reversePixelArray_ok (hlen : img.pixelArray.length = n) (hsize : img.pixelArraySize = n)
    (hn : n ≤ intMax) (hpadding : img.padding < 4) (hin : OppositesIn img n) :
    ∃ pixels, reversePixelArray img = .ok pixels ∧
      (n / 2 = 0 ∨ 0 < img.stride → pixels.isSome) := by
  have hlt : ∀ s : Reverse, decide ((s.i : Int) < (n / 2 : Nat)) = true → s.i < n / 2 := by
    intro s hcond
    rwa [decide_eq_true_iff, Int.ofNat_lt] at hcond
  have hview := @whileLoop_view Reverse Fault Index Reverse.index
    (fun s => decide ((s.i : Int) < (n / 2 : Nat))) (reverseTurn img)
    (fun x => decide ((x.i : Int) < (n / 2 : Nat))) (indexTurn img)
    (fun s => ∃ r c, Facing img n s r c) (fun _ => rfl)
    (fun s ⟨_, _, hs⟩ hcond => (hs.reverseTurn_index hin (hlt s hcond)).1)
    (fun s s' ⟨_, _, hs⟩ hcond hstep => (hs.reverseTurn_index hin (hlt s hcond)).2 s' hstep)
    (2 * (n / 2) + 1) (.start img) ⟨0, 0, facing_start hlen⟩
  have hresult : whileLoop (fun x : Index => decide ((x.i : Int) < (n / 2 : Nat))) (indexTurn img)
      (2 * (n / 2) + 1) (Reverse.start img).index = indexLoop img (n / 2 : Nat) (2 * (n / 2) + 1) :=
    rfl
  rw [hresult] at hview
  rw [reversePixelArray_loop hsize]
  by_cases hadvances : n / 2 = 0 ∨ 0 < img.stride
  · obtain ⟨last, hlast⟩ := indexLoop_ends hadvances (skipsFit_half hn hpadding)
    rw [hlast] at hview
    obtain ⟨pixels, hrun, hpixels⟩ := exists_ok_of_map hview
    rw [hrun]
    refine ⟨_, rfl, fun _ => ?_⟩
    cases pixels with
    | none => cases hpixels
    | some s => rfl
  · rw [indexLoop_endless (by omega) (by omega)] at hview
    obtain ⟨pixels, hrun, hpixels⟩ := exists_ok_of_map hview
    rw [hrun]
    exact ⟨_, rfl, fun h => absurd h hadvances⟩

/-- An opposite byte outside the block is a fault. -/
theorem reversePixelArray_error (hlen : img.pixelArray.length = n) (hsize : img.pixelArraySize = n)
    (hn : n ≤ intMax) (hin : ¬ OppositesIn img n) : ∃ e, reversePixelArray img = .error e := by
  simp only [OppositesIn, Classical.not_forall, Nat.not_lt] at hin
  obtain ⟨row, column, hcolumn, hcell, hout⟩ := hin
  rw [cellAt] at hcell
  have hstride : img.stride = img.rowLength + img.padding := rfl
  -- the loop comes to this byte unless it fails before
  have hturn : ∀ s : Reverse,
      (∃ r c, Facing img n s r c ∧ (r < row ∨ r = row ∧ c ≤ column)) →
      decide ((s.i : Int) < (n / 2 : Nat)) = true ∧
        ((∃ e, reverseTurn img s = .error e) ∨
          ∃ s', reverseTurn img s = .ok s' ∧
            (∃ r c, Facing img n s' r c ∧ (r < row ∨ r = row ∧ c ≤ column)) ∧
            indexLeft img (n / 2) s'.index < indexLeft img (n / 2) s.index) := by
    rintro s ⟨r, c, hs, hbefore⟩
    have hi : s.i = r * img.stride + c := hs.here.i
    have hinRow := hs.here.inRow
    have hlt : s.i < n / 2 := by
      rcases hbefore with hr | ⟨rfl, hc⟩
      · have hrows := Nat.mul_le_mul_right img.stride (show r + 1 ≤ row from hr)
        rw [Nat.succ_mul] at hrows
        omega
      · omega
    refine ⟨decide_eq_true (Int.ofNat_lt.mpr hlt), ?_⟩
    by_cases hc : c = img.rowLength
    · subst hc
      have hr : r < row := by omega
      have hrows := Nat.mul_le_mul_right img.stride (show r + 1 ≤ row from hr)
      rw [Nat.succ_mul] at hrows
      have hfit : s.i + img.padding ≤ intMax := by
        rw [intMax] at hn ⊢
        omega
      have hrow : s.rowPos = img.rowLength := hs.here.rowPos
      refine .inr ⟨_, ?_, ⟨_, _, hs.skip, by omega⟩, ?_⟩
      · rw [reverseTurn_skip hrow, skipPadding, if_pos hfit]
        rfl
      · exact indexLeft_skip hlt hrow (by omega) rfl
    · have hbyte : c < img.rowLength := Nat.lt_of_le_of_ne hinRow hc
      rcases Nat.lt_or_ge (oppositeRow img (r + 1) + c) n with hopposite | hopposite
      · obtain ⟨s', hs', hindex, hnext⟩ := hs.reverseTurn_byte hbyte (by omega) hopposite
        refine .inr ⟨s', hs', ⟨r, c + 1, hnext, ?_⟩, ?_⟩
        · rcases hbefore with hr | ⟨rfl, hle⟩
          · exact .inl hr
          · refine .inr ⟨rfl, Nat.lt_of_le_of_ne hle ?_⟩
            rintro rfl
            omega
        · exact indexLeft_next hlt (by rw [hindex]; rfl)
      · exact .inl ⟨_, hs.reverseTurn_error hbyte (by omega) hopposite⟩
  obtain ⟨e, he⟩ := whileLoop_stops (fun s : Reverse => indexLeft img (n / 2) s.index) hturn
    ⟨0, 0, facing_start hlen, by omega⟩ (indexLeft_start img (n / 2))
  rw [reversePixelArray_loop hsize, he]
  exact ⟨e, rfl⟩

end Reverses

-- ============================================================================
-- The opposite rows
-- ============================================================================

/-- Where the last row begins by the height of the header, on `uint32_t`. -/
def Image.lastRow (img : Image) : Nat :=
  (img.rowLength + img.padding) * ((img.height + 2 ^ 32 - 1) % 2 ^ 32) % 2 ^ 32

/-- The rows that `reverse_pixel_array` exchanges with the lower half of `n` bytes are in the
    block: the last row, and all rows down from it. -/
def RowsFit (img : Image) (n : Nat) : Prop :=
  n < 2 ∨ img.rowLength = 0 ∨
    (img.lastRow + min img.rowLength (n / 2) ≤ n ∧
      (n / 2 - 1) / img.stride * img.stride ≤ img.lastRow)

section Opposites

variable {img : Image} {n r : Nat}

/-- Opposite rows go down from the last one. -/
theorem oppositeRow_add (hr : r < 2 ^ 32) :
    (oppositeRow img (r + 1) + r * img.stride) % 2 ^ 32 = img.lastRow := by
  have hrow : img.height + 2 ^ 32 - (r + 1) + r = img.height + 2 ^ 32 - 1 := by omega
  rw [oppositeRow, Image.lastRow, Image.stride, Nat.mod_add_mod, Nat.mul_comm r, ← Nat.mul_add,
    ← Nat.mul_mod_mod, Nat.mod_add_mod, hrow]

/-- The closed form: only the last row and the lowest one that is reached matter. -/
theorem oppositesIn_iff (hn : n ≤ intMax) : OppositesIn img n ↔ RowsFit img n := by
  rw [intMax] at hn
  have hstride : img.stride = img.rowLength + img.padding := rfl
  have hlast : img.lastRow < 2 ^ 32 := Nat.mod_lt _ (by omega)
  have hmod : ∀ r, oppositeRow img (r + 1) < 2 ^ 32 := fun r => Nat.mod_lt _ (by omega)
  refine ⟨?_, ?_⟩
  · intro hin
    rcases Nat.lt_or_ge n 2 with hsmall | htwo
    · exact .inl hsmall
    rcases Nat.eq_zero_or_pos img.rowLength with hzero | hpos
    · exact .inr (.inl hzero)
    refine .inr (.inr ⟨?_, ?_⟩)
    · -- the last byte of the first row that is exchanged
      have hbyte := hin 0 (min img.rowLength (n / 2) - 1) (by omega)
        (by rw [cellAt, Nat.zero_mul]; omega)
      have hrow := @oppositeRow_add img 0 (by omega)
      rw [Nat.zero_mul, Nat.add_zero, Nat.mod_eq_of_lt (hmod 0)] at hrow
      omega
    · by_contra hbelow
      obtain ⟨q, hq⟩ : ∃ q, (n / 2 - 1) / img.stride = q := ⟨_, rfl⟩
      have hcell : q * img.stride < n / 2 := by
        have hdiv := Nat.div_mul_le_self (n / 2 - 1) img.stride
        rw [hq] at hdiv
        omega
      rw [hq] at hbelow
      have hrows : q ≤ q * img.stride := Nat.le_mul_of_pos_right _ (by omega)
      have hbyte := hin q 0 hpos (by rw [cellAt]; omega)
      have hrow := @oppositeRow_add img q (by omega)
      have hbound := hmod q
      omega
  · rintro (hsmall | hzero | ⟨htop, hbottom⟩) r c hc hcell
    · rw [cellAt] at hcell
      omega
    · omega
    · rw [cellAt] at hcell
      have hrow : r * img.stride ≤ img.lastRow := by
        have hdiv : r ≤ (n / 2 - 1) / img.stride := by
          rw [Nat.le_div_iff_mul_le (by omega)]
          omega
        exact Nat.le_trans (Nat.mul_le_mul_right _ hdiv) hbottom
      have hrows : r ≤ r * img.stride := Nat.le_mul_of_pos_right _ (by omega)
      have hadd := @oppositeRow_add img r (by omega)
      have hbound := hmod r
      rcases Nat.eq_zero_or_pos r with rfl | hpos
      · rw [Nat.zero_mul] at hadd hcell
        omega
      · have hone := Nat.mul_le_mul_right img.stride (show 1 ≤ r from hpos)
        omega

end Opposites

-- ============================================================================
-- `load_bmp`
-- ============================================================================

/-- The loops of both passes come to their end. -/
def LoopsEnd (img : Image) : Prop :=
  LoopEnds img img.pixelArraySize ∧ LoopEnds img (img.pixelArraySize.tdiv 2)

/-- The identification test of `load_bmp`. -/
def Identified (file : List UInt8) : Prop := ¬ (file.getD 0 0 ≠ 66 ∧ file.getD 1 0 ≠ 77)

instance (file : List UInt8) : Decidable (Identified file) := inferInstanceAs (Decidable (¬ _))

/-- The bytes of a row by the header. -/
def rowSize (file : List UInt8) : Nat := le16 file posBbp / 8 * le32 file posWidth % 2 ^ 32

/-- The bytes of padding behind it. -/
def rowPadding (file : List UInt8) : Nat := le32 file posWidth % 4

/-- Where the last row begins by the height of the header. -/
def headerLastRow (file : List UInt8) : Nat :=
  (rowSize file + rowPadding file) * ((le32 file posHeight + 2 ^ 32 - 1) % 2 ^ 32) % 2 ^ 32

/-- The rows of this header advance through its image. -/
def HeaderAdvances (file : List UInt8) : Prop :=
  le32 file posImgSize = 0 ∨ rowSize file ≠ 0 ∨ rowPadding file ≠ 0

/-- The padding behind the last row end in the image ends at an `int`. -/
def HeaderSkips (file : List UInt8) : Prop :=
  rowSize file < le32 file posImgSize →
    (le32 file posImgSize - 1 - rowSize file) / (rowSize file + rowPadding file)
      * (rowSize file + rowPadding file) + rowSize file + rowPadding file ≤ intMax

/-- The last row of this header, and the rows down from it that are exchanged with the lower half,
    are in the image. -/
def HeaderRows (file : List UInt8) : Prop :=
  le32 file posImgSize < 2 ∨ rowSize file = 0 ∨
    (headerLastRow file + min (rowSize file) (le32 file posImgSize / 2) ≤ le32 file posImgSize ∧
      (le32 file posImgSize / 2 - 1) / (rowSize file + rowPadding file)
        * (rowSize file + rowPadding file) ≤ headerLastRow file)

instance (file : List UInt8) : Decidable (HeaderAdvances file) :=
  inferInstanceAs (Decidable (_ ∨ _))

instance (file : List UInt8) : Decidable (HeaderSkips file) := inferInstanceAs (Decidable (_ → _))

instance (file : List UInt8) : Decidable (HeaderRows file) := inferInstanceAs (Decidable (_ ∨ _))

section Loads

variable {img : Image} {file : List UInt8} {heap : Nat → UInt8} {n : Nat}

theorem length_readImage (file : List UInt8) (heap : Nat → UInt8) :
    (readImage file heap).pixelArray.length = le32 file posImgSize := by
  simp only [readImage, List.length_append, List.length_map, List.length_range, List.length_take]
  omega

theorem size_readImage (h : le32 file posImgSize < 2 ^ 31) :
    (readImage file heap).pixelArraySize = (le32 file posImgSize : Int) := by
  simp only [readImage]
  exact toInt_of_lt h

/-- A size from `2^31` on is no bytes for the loops. -/
theorem size_readImage_neg (h : 2 ^ 31 ≤ le32 file posImgSize) :
    (readImage file heap).pixelArraySize < 0 := by
  have hlt := le32_lt file posImgSize
  simp only [readImage]
  rw [toInt_of_ge h hlt]
  omega

theorem padding_readImage (file : List UInt8) (heap : Nat → UInt8) :
    (readImage file heap).padding < 4 := Nat.mod_lt _ (by omega)

/-- Both loops of a block of `n` bytes. -/
theorem loopsEnd_iff (hsize : img.pixelArraySize = n) (hn : n ≤ intMax)
    (hpadding : img.padding < 4) :
    LoopsEnd img ↔ (n = 0 ∨ 0 < img.stride) ∧ SkipsFit img n := by
  have hhalf : img.pixelArraySize.tdiv 2 = (n / 2 : Nat) := by
    rw [hsize]
    rfl
  rw [LoopsEnd, hhalf, hsize, loopEnds_nat_iff hn, loopEnds_nat_iff (by omega)]
  refine ⟨?_, ?_⟩
  · exact fun h => h.1
  · rintro ⟨hadvances, hfit⟩
    refine ⟨⟨hadvances, hfit⟩, ?_, skipsFit_half hn hpadding⟩
    rcases hadvances with rfl | hstride
    · exact .inl rfl
    · exact .inr hstride

/-- A negative size makes no turn. -/
theorem convertToRgb_neg (hsize : img.pixelArraySize < 0) :
    convertToRgb img = .ok (some img.pixelArray) := by
  have hcond : decide (((0 : Nat) : Int) < img.pixelArraySize) = false :=
    decide_eq_false (by omega)
  rw [convertToRgb, whileLoop, hcond]
  rfl

theorem reversePixelArray_neg (hsize : img.pixelArraySize < 0) :
    reversePixelArray img = .ok (some img.pixelArray) := by
  have hhalf : 0 ≤ (-img.pixelArraySize).tdiv 2 := Int.tdiv_nonneg (by omega) (by omega)
  rw [Int.neg_tdiv] at hhalf
  have hcond : decide (((0 : Nat) : Int) < img.pixelArraySize.tdiv 2) = false :=
    decide_eq_false (by omega)
  simp only [reversePixelArray]
  rw [whileLoop, hcond]
  rfl

/-- The two passes of `load_bmp`. -/
theorem loadBmp_identified (hident : Identified file) (himg : readImage file heap = img) :
    loadBmp file heap = (convertToRgb img >>= fun converted =>
      match converted with
      | none => .ok .endless
      | some pixels => reversePixelArray { img with pixelArray := pixels } >>= fun reversed =>
          match reversed with
          | none => .ok .endless
          | some pixels' => .ok (.image { img with pixelArray := pixels' })) := by
  simp only [loadBmp, himg]
  exact if_neg hident

/-- How `load_bmp` comes out, by its header. -/
theorem loadBmp_cases (hident : Identified file) (himg : readImage file heap = img)
    (hlen : img.pixelArray.length = n) (hsize : img.pixelArraySize = n) (hn : n ≤ intMax)
    (hpadding : img.padding < 4) :
    (¬ (SkipsFit img n ∧ RowsFit img n) ∧ ∃ e, loadBmp file heap = .error e) ∨
    (n ≠ 0 ∧ img.stride = 0 ∧ SkipsFit img n ∧ RowsFit img n ∧ loadBmp file heap = .ok .endless) ∨
    ((n = 0 ∨ 0 < img.stride) ∧ SkipsFit img n ∧ RowsFit img n ∧
      ∃ pixels, loadBmp file heap = .ok (.image { img with pixelArray := pixels })) := by
  rw [loadBmp_identified hident himg]
  by_cases hfit : SkipsFit img n
  · by_cases hadvances : n = 0 ∨ 0 < img.stride
    · obtain ⟨rgb, hrgb, hrgbLen⟩ := convertToRgb_ends hlen hsize hadvances hfit
      rw [bind_of_ok hrgb]
      by_cases hrows : RowsFit img n
      · have hin : OppositesIn { img with pixelArray := rgb } n := (oppositesIn_iff hn).mpr hrows
        obtain ⟨pixels, hpixels, hsome⟩ := @reversePixelArray_ok { img with pixelArray := rgb } n
          hrgbLen hsize hn hpadding hin
        have hends : n / 2 = 0 ∨ 0 < img.stride := by omega
        obtain ⟨reversed, rfl⟩ := Option.isSome_iff_exists.mp (hsome hends)
        exact .inr (.inr ⟨hadvances, hfit, hrows, reversed, bind_of_ok hpixels⟩)
      · have hout : ¬ OppositesIn { img with pixelArray := rgb } n :=
          fun hin => hrows ((oppositesIn_iff hn).mp hin)
        obtain ⟨e, he⟩ := @reversePixelArray_error { img with pixelArray := rgb } n
          hrgbLen hsize hn hout
        refine .inl ⟨fun h => hrows h.2, e, ?_⟩
        show (reversePixelArray { img with pixelArray := rgb } >>= _) = _
        rw [he]
        rfl
    · have hstride : img.stride = 0 := by omega
      have hrow : img.rowLength = 0 := by
        rw [Image.stride] at hstride
        omega
      rw [bind_of_ok (convertToRgb_endless hlen hsize (by omega) hstride)]
      exact .inr (.inl ⟨by omega, hstride, hfit, .inr (.inl hrow), rfl⟩)
  · obtain ⟨e, he⟩ := convertToRgb_overflows hlen hsize hn hfit
    rw [he]
    exact .inl ⟨fun h => hfit h.1, e, rfl⟩

/-- Where a row is nothing at all there is nothing to leave the block with. -/
theorem stride_pos_of_not_fits (h : ¬ (SkipsFit img n ∧ RowsFit img n)) : 0 < img.stride := by
  by_contra hzero
  have hstride : img.stride = 0 := by omega
  obtain ⟨hrow, hpadding⟩ := Nat.add_eq_zero_iff.mp hstride
  refine h ⟨fun _ => ?_, .inr (.inl hrow)⟩
  rw [lastRowEnd, cellAt, hstride, hrow, hpadding]
  exact Nat.zero_le _

theorem headerSkips_iff (file : List UInt8) (heap : Nat → UInt8) :
    HeaderSkips file ↔ SkipsFit (readImage file heap) (le32 file posImgSize) := by
  simp only [HeaderSkips, SkipsFit, lastRowEnd, cellAt, Image.stride, readImage, rowSize,
    rowPadding]

theorem headerRows_iff (file : List UInt8) (heap : Nat → UInt8) :
    HeaderRows file ↔ RowsFit (readImage file heap) (le32 file posImgSize) := by
  simp only [HeaderRows, RowsFit, headerLastRow, Image.lastRow, Image.stride, readImage, rowSize,
    rowPadding]

theorem headerAdvances_iff (file : List UInt8) (heap : Nat → UInt8) :
    HeaderAdvances file ↔ le32 file posImgSize = 0 ∨ 0 < (readImage file heap).stride := by
  have hstride : (readImage file heap).stride = rowSize file + rowPadding file := by
    simp only [readImage, Image.stride, rowSize, rowPadding]
  rw [HeaderAdvances, hstride]
  omega

end Loads

/-- The loops of `load_bmp` come to their end unless a row of a block that is not empty has neither
    pixels nor padding, or a skip behind the last row end overflows.  So `convert_to_rgb`, which
    never leaves its block, comes to its end exactly then; in the first case `load_bmp` does not
    return. -/
theorem loadBmp_loops_iff (file : List UInt8) (heap : Nat → UInt8) (hident : Identified file)
    (hsize : le32 file posImgSize < 2 ^ 31) :
    (LoopsEnd (readImage file heap) ↔ HeaderAdvances file ∧ HeaderSkips file) ∧
    ((∃ pixels, convertToRgb (readImage file heap) = .ok (some pixels)) ↔
      HeaderAdvances file ∧ HeaderSkips file) ∧
    (loadBmp file heap = .ok .endless ↔ ¬ HeaderAdvances file) := by
  have hlen := length_readImage file heap
  have hbytes := @size_readImage file heap hsize
  have hpadding := padding_readImage file heap
  have hmax : le32 file posImgSize ≤ intMax := by
    rw [intMax]
    omega
  rw [headerAdvances_iff file heap, headerSkips_iff file heap]
  obtain ⟨n, hn⟩ : ∃ n, le32 file posImgSize = n := ⟨_, rfl⟩
  obtain ⟨img, himg⟩ : ∃ img, readImage file heap = img := ⟨_, rfl⟩
  rw [hn] at hlen hbytes hmax ⊢
  rw [himg] at hlen hbytes hpadding ⊢
  refine ⟨loopsEnd_iff hbytes hmax hpadding, convertToRgb_some_iff hlen hbytes hmax, ?_⟩
  rcases loadBmp_cases hident himg hlen hbytes hmax hpadding with
    ⟨hbad, e, he⟩ | ⟨hpos, hzero, -, -, hendless⟩ | ⟨hadvances, -, -, pixels, hloaded⟩
  · have hadvances := stride_pos_of_not_fits hbad
    rw [he]
    exact iff_of_false (fun h => by cases h) (not_not.mpr (.inr hadvances))
  · rw [hendless]
    exact iff_of_true rfl (by omega)
  · rw [hloaded]
    exact iff_of_false (fun h => by cases h) (not_not.mpr hadvances)

/-- The bytes of a header with these fields. -/
def header (bbp width height size : Nat) : List UInt8 :=
  [66, 77] ++ bytes32 (54 + size) ++ bytes32 0 ++ bytes32 54 ++
    bytes32 40 ++ bytes32 width ++ bytes32 height ++ bytes16 1 ++ bytes16 bbp ++
    bytes32 0 ++ bytes32 size ++ bytes32 0 ++ bytes32 0 ++ bytes32 0 ++ bytes32 0

/-- Two rows of two pixels with their padding. -/
theorem loadBmp_loops_twoRows :
    LoopsEnd (readImage (header 24 2 2 16) fun _ => 0) ∧
    loadBmp (header 24 2 2 16) (fun _ => 0) ≠ .ok .endless := by
  obtain ⟨hends, -, hendless⟩ :=
    loadBmp_loops_iff (header 24 2 2 16) (fun _ => 0) (by decide) (by decide)
  refine ⟨hends.mpr ⟨by decide, by decide⟩, fun h => ?_⟩
  exact absurd (hendless.mp h) (by decide)

/-- On a monochrome picture of eight times eight points `load_bmp` does not return. -/
theorem loadBmp_monochrome :
    Identified (header 1 8 8 32) ∧ le32 (header 1 8 8 32) posImgSize < 2 ^ 31 ∧
    ¬ LoopsEnd (readImage (header 1 8 8 32) fun _ => 0) ∧
    loadBmp (header 1 8 8 32) (fun _ => 0) = .ok .endless ∧
    ∀ turns, indexLoop (readImage (header 1 8 8 32) fun _ => 0) 32 turns = .ok none := by
  have hstride : (readImage (header 1 8 8 32) fun _ => 0).stride = 0 := by decide
  have hstuck := @indexLoop_endless (readImage (header 1 8 8 32) fun _ => 0) 32 (by omega) hstride
  refine ⟨by decide, by decide, ?_, by decide +kernel, hstuck⟩
  rintro ⟨⟨turns, last, hlast⟩, -⟩
  rw [size_readImage (by decide), show le32 (header 1 8 8 32) posImgSize = 32 by decide] at hlast
  have hnone := (hstuck turns).symm.trans hlast
  cases hnone

-- ============================================================================
-- The block
-- ============================================================================

/-- `load_bmp` stays in the block it has allocated, and in `int`, exactly if the size of the header
    is negative as an `int`, or its skips fit and the rows that it exchanges are in the block. -/
theorem loadBmp_ok_iff (file : List UInt8) (heap : Nat → UInt8) (hident : Identified file) :
    (∃ loaded, loadBmp file heap = .ok loaded) ↔
      2 ^ 31 ≤ le32 file posImgSize ∨ (HeaderSkips file ∧ HeaderRows file) := by
  rw [headerSkips_iff file heap, headerRows_iff file heap]
  rcases Nat.lt_or_ge (le32 file posImgSize) (2 ^ 31) with hsize | hlarge
  · have hlen := length_readImage file heap
    have hbytes := @size_readImage file heap hsize
    have hmax : le32 file posImgSize ≤ intMax := by
      rw [intMax]
      omega
    rw [or_iff_right (by omega)]
    rcases loadBmp_cases hident rfl hlen hbytes hmax (padding_readImage file heap) with
      ⟨hbad, e, he⟩ | ⟨-, -, hskips, hrows, hendless⟩ | ⟨-, hskips, hrows, pixels, hloaded⟩
    · rw [he]
      refine iff_of_false ?_ hbad
      rintro ⟨loaded, hloaded⟩
      cases hloaded
    · exact iff_of_true ⟨_, hendless⟩ ⟨hskips, hrows⟩
    · exact iff_of_true ⟨_, hloaded⟩ ⟨hskips, hrows⟩
  · refine iff_of_true ?_ (.inl hlarge)
    have hneg := @size_readImage_neg file heap hlarge
    obtain ⟨img, himg⟩ : ∃ img, readImage file heap = img := ⟨_, rfl⟩
    rw [himg] at hneg
    rw [loadBmp_identified hident himg, convertToRgb_neg hneg]
    show ∃ loaded, (reversePixelArray { img with pixelArray := img.pixelArray } >>= _) = .ok loaded
    rw [reversePixelArray_neg hneg]
    exact ⟨_, rfl⟩

/-- Two rows of two pixels are exchanged inside their sixteen bytes. -/
theorem loadBmp_ok_twoRows : ∃ loaded, loadBmp (header 24 2 2 16) (fun _ => 0) = .ok loaded := by
  apply (loadBmp_ok_iff (header 24 2 2 16) (fun _ => 0) (by decide)).mpr
  exact .inr ⟨by decide, by decide⟩

/-- With three rows in the header and two in the block, the first row is exchanged with bytes behind
    the block. -/
theorem loadBmp_shortBlock :
    Identified (header 24 4 3 24) ∧ loadBmp (header 24 4 3 24) (fun _ => 0) = .error .read := by
  refine ⟨by decide, ?_⟩
  decide +kernel

end LinuxCodeDemos.Bmp

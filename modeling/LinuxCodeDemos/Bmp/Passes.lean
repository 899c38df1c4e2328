/-
  LinuxCodeDemos.Bmp.Passes

  What the two passes over the pixels do to an image whose pixel block holds
  `height` rows of pixels and padding.

  The pixel block is a grid with a byte in each cell.  `convert_to_rgb` mirrors
  the three bytes of every pixel (`convertToRgb_eq`); `reverse_pixel_array`
  exchanges the pixel columns of opposite rows and leaves the padding columns
  (`reversePixelArray_eq`).  Both loops are between two cells at every turn:
  `Converting` and `Reversing` say what was done to the cells before.
-/

import LinuxCodeDemos.Lib.Grid
import LinuxCodeDemos.Bmp.Image

namespace LinuxCodeDemos.Bmp

open Lib

/-- An image of three bytes a pixel whose block is exactly its padded rows. -/
structure Framed (img : Image) : Prop where
  rowLength : img.rowLength = 3 * img.width
  padding : img.padding = img.width % 4
  size : img.pixelArraySize = (img.height * (img.rowLength + img.padding) : Nat)
  length : img.pixelArray.length = img.height * (img.rowLength + img.padding)
  small : img.height * (img.rowLength + img.padding) < 2 ^ 31

/-- The bytes of a row with its padding. -/
def Image.stride (img : Image) : Nat := img.rowLength + img.padding

/-- Byte `c` of row `r` in a pixel block of this image. -/
def Image.byte (img : Image) (pixels : List UInt8) (r c : Nat) : UInt8 := cell pixels img.stride 0 r c

section Block

variable {img : Image}

theorem Image.rowLength_le (img : Image) : img.rowLength ≤ img.stride := Nat.le_add_right _ _

theorem Image.row_lt {r c : Nat} (h : cellAt img.stride r c < img.height * img.stride) :
    r < img.height := by
  rcases Nat.lt_or_ge r img.height with hlt | hge
  · exact hlt
  · have hrows := Nat.mul_le_mul_right img.stride hge
    rw [cellAt] at h
    omega

theorem Framed.width_pos (hf : Framed img) {i : Nat} (hi : i < img.height * img.stride) :
    0 < img.width := by
  rcases Nat.eq_zero_or_pos img.width with hzero | hpos
  · have hstride : img.stride = 0 := by rw [Image.stride, hf.rowLength, hf.padding, hzero]
    rw [hstride, Nat.mul_zero] at hi
    omega
  · exact hpos

variable {pixels : List UInt8} {r c : Nat}

/-- Behind the last byte of a row the next row begins. -/
theorem Framed.skipPadding (hf : Framed img) (hr : r < img.height) :
    skipPadding img (cellAt img.stride r img.rowLength)
      = .ok (cellAt img.stride r img.rowLength + img.padding) := by
  have hsmall : img.height * img.stride < 2 ^ 31 := hf.small
  have hrows := Nat.mul_le_mul_right img.stride (show r + 1 ≤ img.height from hr)
  rw [Nat.succ_mul] at hrows
  refine if_pos ?_
  rw [Image.stride] at hsmall hrows
  rw [cellAt, Image.stride, intMax]
  omega

theorem Framed.withPixels (hf : Framed img) (hlen : pixels.length = img.height * img.stride) :
    Framed { img with pixelArray := pixels } :=
  ⟨hf.rowLength, hf.padding, hf.size, hlen, hf.small⟩

theorem load_byte (hlen : pixels.length = img.height * img.stride) (hr : r < img.height)
    (hc : c < img.stride) :
    load pixels (cellAt img.stride r c) = .ok (img.byte pixels r c) := by
  have hlt : cellAt img.stride r c < pixels.length := hlen ▸ cellAt_lt_of_lt hr hc
  exact load_getD hlt 0

theorem store_byte (hlen : pixels.length = img.height * img.stride) (hr : r < img.height)
    (hc : c < img.stride) (v : UInt8) :
    ∃ pixels', store pixels (cellAt img.stride r c) [v] = .ok pixels' ∧
      pixels'.length = img.height * img.stride ∧
      ∀ r' c', c' < img.stride → img.byte pixels' r' c'
        = if r' = r ∧ c' = c then v else img.byte pixels r' c' := by
  refine ⟨pixels.set (cellAt img.stride r c) v, ?_, ?_, ?_⟩
  · exact store_single (hlen ▸ cellAt_lt_of_lt hr hc) v
  · rw [List.length_set, hlen]
  · intro r' c' hc'
    exact cell_set hr hlen hc hc'

end Block

-- ============================================================================
-- `convert_to_rgb`
-- ============================================================================

/-- The byte that takes the place of byte `c` of a row: the mirrored one of its pixel. -/
def mirrored (c : Nat) : Nat := c - c % 3 + (2 - c % 3)

/-- The colour that byte `c` of a row is. -/
def colourOf (c : Nat) : Colour :=
  if c % 3 = 0 then .blue else if c % 3 = 1 then .green else .red

/-- The loop is in front of byte `c` of row `r`: the pixels before are mirrored. -/
structure Converting (img : Image) (s : Convert) (r c : Nat) : Prop where
  i : s.i = cellAt img.stride r c
  rowPos : s.rowPos = c
  inRow : c ≤ img.rowLength
  flag : s.flag = colourOf c
  temp : c % 3 ≠ 0 → s.temp = img.byte img.pixelArray r (c - c % 3)
  length : s.pixels.length = img.height * img.stride
  pixels : ∀ r' c', c' < img.stride →
    img.byte s.pixels r' c' =
      img.byte img.pixelArray r'
        (if c' < img.rowLength ∧ (r' < r ∨ r' = r ∧ c' / 3 < c / 3) then mirrored c' else c')

/-- How far the loop is from its end. -/
def convertLeft (img : Image) (s : Convert) : Nat :=
  2 * (img.height * img.stride - s.i) + if s.rowPos = img.rowLength ∧ s.rowPos ≠ 0 then 1 else 0

section Converts

variable {img : Image} (hf : Framed img)
include hf

/-- At the end of a row the loop skips the padding. -/
theorem Converting.skip {s : Convert} {r c : Nat} (hs : Converting img s r c)
    (hc : c = img.rowLength) :
    Converting img { s with rowPos := 0, i := s.i + img.padding } (r + 1) 0 := by
  have hrow := hf.rowLength
  refine ⟨?_, rfl, Nat.zero_le _, ?_, fun h => absurd rfl h, hs.length, ?_⟩
  · show s.i + img.padding = _
    rw [hs.i, hc, cellAt, cellAt, Nat.succ_mul, Image.stride]
    omega
  · show s.flag = _
    rw [hs.flag, colourOf, colourOf, if_pos (by omega), if_pos rfl]
  · intro r' c' hc'
    rw [hs.pixels r' c' hc']
    congr 1
    have hsame : (c' < img.rowLength ∧ (r' < r ∨ r' = r ∧ c' / 3 < c / 3)) ↔
        (c' < img.rowLength ∧ (r' < r + 1 ∨ r' = r + 1 ∧ c' / 3 < 0 / 3)) := by
      omega
    simp only [hsame]

omit hf in
/-- A blue or a green byte stays where it is. -/
theorem Converting.pass {s : Convert} {r c : Nat} (hs : Converting img s r c)
    (hc : c < img.rowLength) (hred : c % 3 ≠ 2) {temp : UInt8}
    (htemp : temp = img.byte img.pixelArray r (c - c % 3)) :
    Converting img { s with temp, flag := colourOf (c + 1), rowPos := s.rowPos + 1, i := s.i + 1 }
      r (c + 1) := by
  refine ⟨?_, ?_, hc, rfl, ?_, hs.length, ?_⟩
  · show s.i + 1 = _
    rw [hs.i, cellAt, cellAt, Nat.add_assoc]
  · show s.rowPos + 1 = _
    rw [hs.rowPos]
  · intro _
    show temp = _
    rw [htemp]
    congr 1
    omega
  · intro r' c' hc'
    show img.byte s.pixels r' c' = _
    rw [hs.pixels r' c' hc', show (c + 1) / 3 = c / 3 by omega]

/-- At the red byte both ends of the pixel change places. -/
theorem Converting.swap {s : Convert} {r c : Nat} (hs : Converting img s r c)
    (hr : r < img.height) (hc : c < img.rowLength) (hred : c % 3 = 2) :
    ∃ first second, store s.pixels (s.i - 2) [img.byte s.pixels r c] = .ok first ∧
      store first s.i [s.temp] = .ok second ∧
      Converting img
        { s with pixels := second, flag := .blue, rowPos := s.rowPos + 1, i := s.i + 1 }
        r (c + 1) := by
  have hle := img.rowLength_le
  have hrow := hf.rowLength
  obtain ⟨first, hfirst, hlen₁, hcells₁⟩ :=
    store_byte hs.length hr (show c - 2 < img.stride by omega) (img.byte s.pixels r c)
  obtain ⟨second, hsecond, hlen₂, hcells₂⟩ :=
    store_byte hlen₁ hr (show c < img.stride by omega) s.temp
  have hback : s.i - 2 = cellAt img.stride r (c - 2) := by
    rw [hs.i, cellAt, cellAt]
    omega
  rw [← hback] at hfirst
  rw [← hs.i] at hsecond
  refine ⟨first, second, hfirst, hsecond, ⟨?_, ?_, hc, ?_, ?_, hlen₂, ?_⟩⟩
  · show s.i + 1 = _
    rw [hs.i, cellAt, cellAt, Nat.add_assoc]
  · show s.rowPos + 1 = _
    rw [hs.rowPos]
  · show Colour.blue = _
    rw [colourOf, if_pos (by omega)]
  · intro hne
    omega
  · intro r' c' hc'
    show img.byte second r' c' = _
    rw [hcells₂ r' c' hc', hcells₁ r' c' hc']
    by_cases hend : r' = r ∧ c' = c
    · obtain ⟨rfl, rfl⟩ := hend
      rw [if_pos ⟨rfl, rfl⟩, hs.temp (by omega), if_pos (by omega), mirrored]
      congr 1
      omega
    rw [if_neg hend]
    by_cases hstart : r' = r ∧ c' = c - 2
    · obtain ⟨rfl, rfl⟩ := hstart
      rw [if_pos ⟨rfl, rfl⟩, hs.pixels _ c (by omega), if_neg (by omega),
        if_pos (by omega), mirrored]
      congr 1
      omega
    rw [if_neg hstart, hs.pixels r' c' hc']
    by_cases hmid : r' = r ∧ c' = c - 1
    · -- the green byte is its own mirror image
      obtain ⟨rfl, rfl⟩ := hmid
      rw [if_neg (by omega), if_pos (by omega), mirrored]
      congr 1
      omega
    · have hsame : (c' < img.rowLength ∧ (r' < r ∨ r' = r ∧ c' / 3 < c / 3)) ↔
          (c' < img.rowLength ∧ (r' < r ∨ r' = r ∧ c' / 3 < (c + 1) / 3)) := by
        omega
      simp only [hsame]

/-- One turn of `convert_to_rgb`. -/
theorem convertTurn_eq {s : Convert} {r c : Nat} (hs : Converting img s r c)
    (hi : s.i < img.height * img.stride) :
    ∃ s' r' c', convertTurn img s = .ok s' ∧ Converting img s' r' c' ∧
      convertLeft img s' < convertLeft img s := by
  have hrow := hf.rowLength
  have hwidth := hf.width_pos hi
  have hr := Image.row_lt (hs.i ▸ hi)
  by_cases hc : c = img.rowLength
  · refine ⟨_, r + 1, 0, ?_, hs.skip hf hc, ?_⟩
    · rw [convertTurn, if_pos (hs.rowPos.trans hc), hs.i, hc, hf.skipPadding hr, ← hc, ← hs.i]
      rfl
    · have hpos := hs.rowPos
      simp only [convertLeft]
      rw [if_neg (by omega), if_pos (by omega)]
      omega
  have hlt : c < img.rowLength := Nat.lt_of_le_of_ne hs.inRow hc
  have hle := img.rowLength_le
  have hleft : ∀ s' : Convert, s'.i = s.i + 1 → convertLeft img s' < convertLeft img s := by
    intro s' hs'
    simp only [convertLeft, hs']
    split <;> split <;> omega
  have hload := load_byte hs.length hr (show c < img.stride by omega)
  rw [← hs.i] at hload
  rw [convertTurn, if_neg (by rw [hs.rowPos]; exact hc), hs.flag, colourOf]
  by_cases hblue : c % 3 = 0
  · have htemp : img.byte s.pixels r c = img.byte img.pixelArray r (c - c % 3) := by
      rw [hs.pixels r c (by omega), if_neg (by omega), hblue, Nat.sub_zero]
    have hnext := hs.pass hlt (by omega) htemp
    rw [colourOf, if_neg (by omega), if_pos (by omega)] at hnext
    rw [if_pos hblue]
    simp only [hload, Except.bind, bind]
    exact ⟨_, r, c + 1, rfl, hnext, hleft _ rfl⟩
  rw [if_neg hblue]
  by_cases hgreen : c % 3 = 1
  · have hnext := hs.pass hlt (by omega) (hs.temp hblue)
    rw [colourOf, if_neg (by omega), if_neg (by omega)] at hnext
    rw [if_pos hgreen]
    exact ⟨_, r, c + 1, rfl, hnext, hleft _ rfl⟩
  · obtain ⟨first, second, hfirst, hsecond, hnext⟩ := hs.swap hf hr hlt (by omega)
    rw [if_neg hgreen]
    simp only [hload, hfirst, hsecond, Except.bind, bind]
    exact ⟨_, r, c + 1, rfl, hnext, hleft _ rfl⟩

/-- At the end of the block every pixel was mirrored. -/
theorem Converting.done {s : Convert} {r c r' c' : Nat} (hs : Converting img s r c)
    (hi : img.height * img.stride ≤ s.i) (hr' : r' < img.height) (hc' : c' < img.rowLength) :
    r' < r ∨ r' = r ∧ c' / 3 < c / 3 := by
  have hrow := hf.rowLength
  have hin := hs.inRow
  have hle := img.rowLength_le
  have hrows : (r' + 1) * img.stride ≤ cellAt img.stride r c := by
    rw [← hs.i]
    exact Nat.le_trans (Nat.mul_le_mul_right _ hr') hi
  rcases row_before_of_le (show 0 < img.stride by omega) (by omega) hrows with hlt | ⟨rfl, hend⟩
  · exact .inl hlt
  · exact .inr ⟨rfl, by omega⟩

/-- `convert_to_rgb` mirrors every pixel and leaves the padding. -/
theorem convertToRgb_eq :
    ∃ pixels, convertToRgb img = .ok (some pixels) ∧
      pixels.length = img.height * img.stride ∧
      ∀ r < img.height, ∀ c < img.stride,
        img.byte pixels r c =
          img.byte img.pixelArray r (if c < img.rowLength then mirrored c else c) := by
  have hsize : img.pixelArraySize = (img.height * img.stride : Nat) := hf.size
  have hstart : Converting img
      { i := 0, rowPos := 0, flag := .blue, temp := 0, pixels := img.pixelArray } 0 0 := by
    refine ⟨?_, rfl, Nat.zero_le _, rfl, fun h => absurd rfl h, hf.length, ?_⟩
    · rw [cellAt, Nat.zero_mul]
    · intro r' c' _
      rw [if_neg (by omega)]
  have hturn : ∀ s : Convert, (∃ r c, Converting img s r c) →
      decide ((s.i : Int) < img.pixelArraySize) = true →
      ∃ s', convertTurn img s = .ok s' ∧ (∃ r c, Converting img s' r c) ∧
        convertLeft img s' < convertLeft img s := by
    rintro s ⟨r, c, hs⟩ hcond
    rw [hsize, decide_eq_true_iff, Int.ofNat_lt] at hcond
    obtain ⟨s', r', c', hstep, hs', hless⟩ := convertTurn_eq hf hs hcond
    exact ⟨s', hstep, ⟨r', c', hs'⟩, hless⟩
  have hfuel : convertLeft img
      { i := 0, rowPos := 0, flag := .blue, temp := 0, pixels := img.pixelArray }
        < 2 * img.pixelArraySize.toNat + 1 := by
    rw [hsize, Int.toNat_natCast, convertLeft, if_neg (by simp)]
    omega
  obtain ⟨s, hrun, ⟨r, c, hs⟩, hdone⟩ :=
    whileLoop_ends (convertLeft img) hturn ⟨0, 0, hstart⟩ hfuel
  rw [hsize, decide_eq_false_iff_not, Int.ofNat_lt, Nat.not_lt] at hdone
  refine ⟨s.pixels, ?_, hs.length, ?_⟩
  · rw [convertToRgb, hrun]
    rfl
  · intro r' hr' c' hc'
    rw [hs.pixels r' c' hc']
    congr 1
    by_cases hpix : c' < img.rowLength
    · rw [if_pos ⟨hpix, hs.done hf hdone hr' hpix⟩, if_pos hpix]
    · rw [if_neg (fun h => hpix h.1), if_neg hpix]

end Converts

-- ============================================================================
-- `reverse_pixel_array`
-- ============================================================================

/-- The row opposite to row `r`. -/
def Image.opposite (img : Image) (r : Nat) : Nat := img.height - 1 - r

theorem Image.opposite_lt {img : Image} {r : Nat} (hr : r < img.height) :
    img.opposite r < img.height := by
  rw [Image.opposite]
  omega

theorem Image.opposite_opposite {img : Image} {r : Nat} (hr : r < img.height) :
    img.opposite (img.opposite r) = r := by
  simp only [Image.opposite]
  omega

/-- Cell `(r', c')` is before byte `c` of row `r`. -/
def Before (r c r' c' : Nat) : Prop := r' < r ∨ r' = r ∧ c' < c

instance (r c r' c' : Nat) : Decidable (Before r c r' c') := inferInstanceAs (Decidable (_ ∨ _))

/-- The loop is in front of byte `c` of row `r`: what is before in the pixel columns
    is exchanged with the opposite row. -/
structure Reversing (img : Image) (s : Reverse) (r c : Nat) : Prop where
  i : s.i = cellAt img.stride r c
  rowPos : s.rowPos = c
  inRow : c ≤ img.rowLength
  rowCount : s.rowCount = r + 1
  opposite : 2 * r < img.height → s.oppositeRowI = cellAt img.stride (img.opposite r) c
  length : s.pixels.length = img.height * img.stride
  pixels : ∀ r' < img.height, ∀ c' < img.stride,
    img.byte s.pixels r' c' =
      img.byte img.pixelArray
        (if c' < img.rowLength ∧ (Before r c r' c' ∨ Before r c (img.opposite r') c')
          then img.opposite r' else r') c'

/-- How far the loop is from its end. -/
def reverseLeft (img : Image) (s : Reverse) : Nat :=
  2 * (img.height * img.stride / 2 - s.i)
    + if s.rowPos = img.rowLength ∧ s.rowPos ≠ 0 then 1 else 0

section Reverses

variable {img : Image} (hf : Framed img)
include hf

theorem oppositeRow_eq {r : Nat} (hr : 2 * r < img.height) :
    oppositeRow img (r + 1) = cellAt img.stride (img.opposite r) 0 := by
  have hsmall : img.height * img.stride < 2 ^ 31 := hf.small
  have hrows : (img.height - 1 - r) * img.stride ≤ img.height * img.stride :=
    Nat.mul_le_mul_right _ (by omega)
  rcases Nat.eq_zero_or_pos img.stride with hzero | hpos
  · rw [oppositeRow, cellAt, ← Image.stride, hzero, Nat.zero_mul, Nat.mul_zero]
    rfl
  · have hheight : img.height ≤ img.height * img.stride := Nat.le_mul_of_pos_right _ hpos
    have hdiff : (img.height + 2 ^ 32 - (r + 1)) % 2 ^ 32 = img.height - 1 - r := by
      omega
    rw [oppositeRow, hdiff, ← Image.stride, Nat.mul_comm, Nat.mod_eq_of_lt (by omega)]
    rfl

omit hf in
/-- In the lower half of the block, the loop is in the lower half of the rows. -/
theorem Reversing.half {s : Reverse} {r c : Nat} (hs : Reversing img s r c)
    (hi : s.i < img.height * img.stride / 2) : 2 * r < img.height := by
  rcases Nat.lt_or_ge (2 * r) img.height with hlt | hge
  · exact hlt
  · have hrows := Nat.mul_le_mul_right img.stride hge
    rw [hs.i, cellAt] at hi
    rw [Nat.mul_assoc] at hrows
    omega

/-- At the end of a row the loop skips the padding and finds the next opposite row. -/
theorem Reversing.skip {s : Reverse} {r c : Nat} (hs : Reversing img s r c)
    (hc : c = img.rowLength) :
    Reversing img
      { s with
        rowCount := s.rowCount + 1
        oppositeRowI := oppositeRow img (s.rowCount + 1)
        rowPos := 0
        i := s.i + img.padding } (r + 1) 0 := by
  refine ⟨?_, rfl, Nat.zero_le _, ?_, ?_, hs.length, ?_⟩
  · show s.i + img.padding = _
    rw [hs.i, hc, cellAt, cellAt, Nat.succ_mul, Image.stride]
    omega
  · show s.rowCount + 1 = _
    rw [hs.rowCount]
  · intro hr
    show oppositeRow img (s.rowCount + 1) = _
    rw [hs.rowCount]
    exact oppositeRow_eq hf hr
  · intro r' hr' c' hc'
    have hsame : (c' < img.rowLength ∧ (Before r c r' c' ∨ Before r c (img.opposite r') c')) ↔
        (c' < img.rowLength ∧
          (Before (r + 1) 0 r' c' ∨ Before (r + 1) 0 (img.opposite r') c')) := by
      simp only [Before]
      omega
    show img.byte s.pixels r' c' = _
    rw [hs.pixels r' hr' c' hc']
    simp only [hsame]

omit hf in
/-- The byte in front of the loop and the opposite one were not exchanged before. -/
theorem Reversing.fresh {s : Reverse} {r c r₀ : Nat} (hs : Reversing img s r c)
    (hr : 2 * r < img.height) (hc : c < img.stride) (hr₀ : r₀ = r ∨ r₀ = img.opposite r) :
    img.byte s.pixels r₀ c = img.byte img.pixelArray r₀ c := by
  have hin : r₀ < img.height := by
    rcases hr₀ with rfl | rfl
    · omega
    · exact Image.opposite_lt (by omega)
  rw [hs.pixels r₀ hin c hc, if_neg]
  simp only [Before, Image.opposite] at hr₀ ⊢
  omega

omit hf in
/-- Inside a row a byte and the one in the opposite row change places. -/
theorem Reversing.swap {s : Reverse} {r c : Nat} (hs : Reversing img s r c)
    (hr : 2 * r < img.height) (hc : c < img.rowLength) :
    ∃ first second,
      load s.pixels s.i = .ok (img.byte s.pixels r c) ∧
      load s.pixels s.oppositeRowI = .ok (img.byte s.pixels (img.opposite r) c) ∧
      store s.pixels s.i [img.byte s.pixels (img.opposite r) c] = .ok first ∧
      store first s.oppositeRowI [img.byte s.pixels r c] = .ok second ∧
      Reversing img
        { s with
          pixels := second
          oppositeRowI := s.oppositeRowI + 1
          rowPos := s.rowPos + 1
          i := s.i + 1 } r (c + 1) := by
  have hle := img.rowLength_le
  have hin : c < img.stride := by omega
  have hlow : r < img.height := by omega
  have hhigh := Image.opposite_lt hlow
  have hopp := hs.opposite hr
  have hload := load_byte hs.length hlow hin
  have hload' := load_byte hs.length hhigh hin
  obtain ⟨first, hfirst, hlen₁, hcells₁⟩ :=
    store_byte hs.length hlow hin (img.byte s.pixels (img.opposite r) c)
  obtain ⟨second, hsecond, hlen₂, hcells₂⟩ :=
    store_byte hlen₁ hhigh hin (img.byte s.pixels r c)
  rw [← hs.i] at hload hfirst
  rw [← hopp] at hload' hsecond
  refine ⟨first, second, hload, hload', hfirst, hsecond,
    ⟨?_, ?_, hc, hs.rowCount, ?_, hlen₂, ?_⟩⟩
  · show s.i + 1 = _
    rw [hs.i, cellAt, cellAt, Nat.add_assoc]
  · show s.rowPos + 1 = _
    rw [hs.rowPos]
  · intro _
    show s.oppositeRowI + 1 = _
    rw [hopp, cellAt, cellAt, Nat.add_assoc]
  · intro r' hr' c' hc'
    show img.byte second r' c' = _
    rw [hcells₂ r' c' hc', hcells₁ r' c' hc', hs.fresh hr hin (.inl rfl),
      hs.fresh hr hin (.inr rfl)]
    by_cases hopposite : r' = img.opposite r ∧ c' = c
    · obtain ⟨rfl, rfl⟩ := hopposite
      rw [if_pos ⟨rfl, rfl⟩, Image.opposite_opposite hlow,
        if_pos ⟨hc, .inr (.inr ⟨rfl, Nat.lt_succ_self _⟩)⟩]
    rw [if_neg hopposite]
    by_cases hhere : r' = r ∧ c' = c
    · obtain ⟨rfl, rfl⟩ := hhere
      rw [if_pos ⟨rfl, rfl⟩, if_pos ⟨hc, .inl (.inr ⟨rfl, Nat.lt_succ_self _⟩)⟩]
    · have hsame : (c' < img.rowLength ∧ (Before r c r' c' ∨ Before r c (img.opposite r') c')) ↔
          (c' < img.rowLength ∧
            (Before r (c + 1) r' c' ∨ Before r (c + 1) (img.opposite r') c')) := by
        simp only [Before, Image.opposite] at hopposite ⊢
        omega
      rw [if_neg hhere, hs.pixels r' hr' c' hc']
      simp only [hsame]

/-- One turn of `reverse_pixel_array`. -/
theorem reverseTurn_eq {s : Reverse} {r c : Nat} (hs : Reversing img s r c)
    (hi : s.i < img.height * img.stride / 2) :
    ∃ s' r' c', reverseTurn img s = .ok s' ∧ Reversing img s' r' c' ∧
      reverseLeft img s' < reverseLeft img s := by
  have hrow := hf.rowLength
  have hwidth := hf.width_pos (show s.i < img.height * img.stride by omega)
  have hpos := hs.rowPos
  by_cases hc : c = img.rowLength
  · refine ⟨_, r + 1, 0, ?_, hs.skip hf hc, ?_⟩
    · have hrow := hs.half hi
      rw [reverseTurn, if_pos (hpos.trans hc), hs.i, hc, hf.skipPadding (by omega), ← hc, ← hs.i]
      rfl
    · simp only [reverseLeft]
      rw [if_neg (by omega), if_pos (by omega)]
      omega
  · have hlt : c < img.rowLength := Nat.lt_of_le_of_ne hs.inRow hc
    obtain ⟨first, second, hload, hload', hfirst, hsecond, hnext⟩ :=
      hs.swap (hs.half hi) hlt
    rw [reverseTurn, if_neg (by rw [hpos]; exact hc)]
    simp only [hload, hload', hfirst, hsecond, Except.bind, bind]
    refine ⟨_, r, c + 1, rfl, hnext, ?_⟩
    simp only [reverseLeft]
    split <;> split <;> omega

omit hf in
/-- Past the middle of the block, every row that is not its own opposite was exchanged. -/
theorem Reversing.done {s : Reverse} {r c r' c' : Nat} (hs : Reversing img s r c)
    (hi : img.height * img.stride / 2 ≤ s.i) (hr' : r' < img.height) (hc' : c' < img.rowLength)
    (hne : img.opposite r' ≠ r') : Before r c r' c' ∨ Before r c (img.opposite r') c' := by
  have hin := hs.inRow
  have hle := img.rowLength_le
  -- the lower one of the two rows
  obtain ⟨m, hm, hlow⟩ : ∃ m, (m = r' ∨ m = img.opposite r') ∧ 2 * (m + 1) ≤ img.height := by
    rcases Nat.lt_or_ge r' (img.opposite r') with hlt | hge
    · refine ⟨r', .inl rfl, ?_⟩
      rw [Image.opposite] at hlt
      omega
    · refine ⟨img.opposite r', .inr rfl, ?_⟩
      rw [Image.opposite] at hge hne ⊢
      omega
  have hrows := Nat.mul_le_mul_right img.stride hlow
  rw [Nat.mul_assoc] at hrows
  have hbefore : Before r c m c' := by
    rcases row_before_of_le (show 0 < img.stride by omega) (show c ≤ img.stride by omega)
      (show (m + 1) * img.stride ≤ cellAt img.stride r c by rw [← hs.i]; omega)
      with hlt | ⟨rfl, hend⟩
    · exact .inl hlt
    · exact .inr ⟨rfl, by omega⟩
  rcases hm with rfl | rfl
  · exact .inl hbefore
  · exact .inr hbefore

/-- `reverse_pixel_array` turns the pixel columns over and leaves the padding. -/
theorem reversePixelArray_eq :
    ∃ pixels, reversePixelArray img = .ok (some pixels) ∧
      pixels.length = img.height * img.stride ∧
      ∀ r < img.height, ∀ c < img.stride,
        img.byte pixels r c =
          img.byte img.pixelArray (if c < img.rowLength then img.opposite r else r) c := by
  have hhalf : img.pixelArraySize.tdiv 2 = (img.height * img.stride / 2 : Nat) := by
    rw [show img.pixelArraySize = (img.height * img.stride : Nat) from hf.size]
    rfl
  have hstart : Reversing img
      { i := 0, rowPos := 0, rowCount := 1, oppositeRowI := oppositeRow img 1
        pixels := img.pixelArray } 0 0 := by
    refine ⟨?_, rfl, Nat.zero_le _, rfl, fun h => oppositeRow_eq hf h, hf.length, ?_⟩
    · rw [cellAt, Nat.zero_mul]
    · intro r' _ c' _
      rw [if_neg (by simp only [Before]; omega)]
  have hturn : ∀ s : Reverse, (∃ r c, Reversing img s r c) →
      decide ((s.i : Int) < img.pixelArraySize.tdiv 2) = true →
      ∃ s', reverseTurn img s = .ok s' ∧ (∃ r c, Reversing img s' r c) ∧
        reverseLeft img s' < reverseLeft img s := by
    rintro s ⟨r, c, hs⟩ hcond
    rw [hhalf, decide_eq_true_iff, Int.ofNat_lt] at hcond
    obtain ⟨s', r', c', hstep, hs', hless⟩ := reverseTurn_eq hf hs hcond
    exact ⟨s', hstep, ⟨r', c', hs'⟩, hless⟩
  have hfuel : reverseLeft img
      { i := 0, rowPos := 0, rowCount := 1, oppositeRowI := oppositeRow img 1
        pixels := img.pixelArray } < 2 * (img.pixelArraySize.tdiv 2).toNat + 1 := by
    rw [hhalf, Int.toNat_natCast, reverseLeft, if_neg (by simp)]
    omega
  obtain ⟨s, hrun, ⟨r, c, hs⟩, hdone⟩ :=
    whileLoop_ends (reverseLeft img) hturn ⟨0, 0, hstart⟩ hfuel
  rw [hhalf, decide_eq_false_iff_not, Int.ofNat_lt, Nat.not_lt] at hdone
  refine ⟨s.pixels, ?_, hs.length, ?_⟩
  · simp only [reversePixelArray]
    rw [hrun]
    rfl
  · intro r' hr' c' hc'
    rw [hs.pixels r' hr' c' hc']
    by_cases hpix : c' < img.rowLength
    · rw [if_pos hpix]
      by_cases hne : img.opposite r' = r'
      · rw [hne, ite_self]
      · rw [if_pos ⟨hpix, hs.done hdone hr' hpix hne⟩]
    · rw [if_neg (fun h => hpix h.1), if_neg hpix]

/-- Both passes, as `load_bmp` makes them. -/
theorem passes_eq :
    ∃ rgb pixels, convertToRgb img = .ok (some rgb) ∧
      reversePixelArray { img with pixelArray := rgb } = .ok (some pixels) ∧
      pixels.length = img.height * img.stride ∧
      ∀ r < img.height, ∀ c < img.stride,
        img.byte pixels r c =
          if c < img.rowLength then img.byte img.pixelArray (img.opposite r) (mirrored c)
          else img.byte img.pixelArray r c := by
  obtain ⟨rgb, hconvert, hlen, hrgb⟩ := convertToRgb_eq hf
  obtain ⟨pixels, hreverse, hlen', hpixels⟩ := reversePixelArray_eq (hf.withPixels hlen)
  refine ⟨rgb, pixels, hconvert, hreverse, hlen', ?_⟩
  intro r hr c hc
  have hturned : img.byte pixels r c
      = img.byte rgb (if c < img.rowLength then img.opposite r else r) c := hpixels r hr c hc
  rw [hturned]
  by_cases hpix : c < img.rowLength
  · rw [if_pos hpix, if_pos hpix, hrgb _ (Image.opposite_lt hr) c hc, if_pos hpix]
  · rw [if_neg hpix, if_neg hpix, hrgb r hr c hc, if_neg hpix]

end Reverses

end LinuxCodeDemos.Bmp

/-
  LinuxCodeDemos.Bmp.Draw

  What the viewer shows of a well-formed picture.

  `load_bmp` brings the rows into reading order and every pixel into the order
  red, green, blue; the rows keep their padding (`loadBmp_eq`).  The drawing loop
  takes the block for pixels in the order blue, green, red without padding
  (`main_eq`).  So the colours are right only for pictures on which the two
  readings of the block agree; with rows that need no padding these are the ones
  without any difference between red and blue (`agrees_iff`).
-/

import LinuxCodeDemos.Bmp.Passes

namespace LinuxCodeDemos.Bmp

open Lib

-- ============================================================================
-- Well-formed files
-- ============================================================================

/-- An uncompressed bottom-up 24-bit BMP file that fits the screen. -/
structure Picture where
  file : List UInt8
  ident : file.getD 0 0 = 66 ∧ file.getD 1 0 = 77
  infoHeader : le32 file 14 = 40
  planes : le16 file 26 = 1
  bbp : le16 file posBbp = 24
  compression : le32 file posCompressionMethod = 0
  fitsWidth : le32 file posWidth ≤ 480
  fitsHeight : le32 file posHeight ≤ 272
  imgSize : le32 file posImgSize = (3 * le32 file posWidth + 3) / 4 * 4 * le32 file posHeight
  offset : 54 ≤ le32 file posPixArrayOffset
  complete : le32 file posPixArrayOffset + le32 file posImgSize ≤ file.length

namespace Picture

variable (p : Picture)

def width : Nat := le32 p.file posWidth

def height : Nat := le32 p.file posHeight

/-- The bytes of a row, padded to a multiple of 4. -/
def stride : Nat := (3 * p.width + 3) / 4 * 4

/-- Byte `c` of row `r` of the file; its rows go from bottom to top. -/
def fileByte (r c : Nat) : UInt8 :=
  p.file.getD (le32 p.file posPixArrayOffset + cellAt p.stride r c) 0

/-- Byte `k` of the picture's pixel in column `x`, row `y` from the top: blue, green, red. -/
def channel (k x y : Nat) : UInt8 := p.fileByte (p.height - 1 - y) (3 * x + k)

def blue (x y : Nat) : UInt8 := p.channel 0 x y

def green (x y : Nat) : UInt8 := p.channel 1 x y

def red (x y : Nat) : UInt8 := p.channel 2 x y

/-- `R << 16 | G << 8 | B`. -/
def colour (x y : Nat) : Nat :=
  (p.red x y).toNat <<< 16 ||| (p.green x y).toNat <<< 8 ||| (p.blue x y).toNat

/-- The calls that draw every position of the picture in its colour, row by row. -/
def screen (color : Nat → Nat → Nat) : List SetPixel :=
  (List.range p.height).flatMap fun y =>
    (List.range p.width).map fun x => { x, y, color := color x y }

/-- Byte `n` of the picture written from top to bottom in the order red, green, blue, each
    row with the padding that the file has behind the row it stores there. -/
def rgbByte (n : Nat) : UInt8 :=
  if n % p.stride < 3 * p.width then
    p.channel (2 - n % p.stride % 3) (n % p.stride / 3) (n / p.stride)
  else p.fileByte (n / p.stride) (n % p.stride)

/-- The bytes of the picture in the order blue, green, red without padding are the first
    ones of `rgbByte`. -/
def Agrees : Prop :=
  ∀ y < p.height, ∀ x < p.width, ∀ k < 3, p.rgbByte (3 * (x + y * p.width) + k) = p.channel k x y

instance : Decidable p.Agrees := inferInstanceAs (Decidable (∀ y < _, _))

theorem stride_eq : p.stride = 3 * p.width + p.width % 4 := by
  rw [stride]
  omega

theorem size_le : p.height * p.stride ≤ 272 * 1440 := by
  have hw : p.width ≤ 480 := p.fitsWidth
  have hstride : p.stride ≤ 1440 := by
    rw [stride]
    omega
  exact Nat.mul_le_mul p.fitsHeight hstride

/-- A pixel is in the block, also without the padding. -/
theorem pixel_lt {x y k : Nat} (hy : y < p.height) (hx : x < p.width) (hk : k < 3) :
    3 * (x + y * p.width) + k < p.height * p.stride := by
  have hcell := cellAt_lt_of_lt hy (show x < p.width from hx)
  have hrows : p.height * (3 * p.width) ≤ p.height * p.stride := by
    rw [stride_eq]
    exact Nat.mul_le_mul_left _ (by omega)
  rw [Nat.mul_left_comm] at hrows
  rw [cellAt] at hcell
  omega

end Picture

-- ============================================================================
-- Loading
-- ============================================================================

section Loads

variable (p : Picture) (heap : Nat → UInt8)

theorem readImage_eq :
    readImage p.file heap =
      { pixelArray := (p.file.drop (le32 p.file posPixArrayOffset)).take (p.height * p.stride)
        padding := p.width % 4
        pixelArraySize := (p.height * p.stride : Nat)
        width := p.width
        height := p.height
        rowLength := 3 * p.width
        bbp := 24 } := by
  have hsize : le32 p.file posImgSize = p.height * p.stride := by
    rw [p.imgSize, Nat.mul_comm]
    rfl
  have hcomplete := p.complete
  have hsmall := p.size_le
  have hw : p.width ≤ 480 := p.fitsWidth
  have hread : ((p.file.drop (le32 p.file posPixArrayOffset)).take (p.height * p.stride)).length
      = p.height * p.stride := by
    rw [List.length_take, List.length_drop]
    omega
  have hint : toInt (p.height * p.stride) = (p.height * p.stride : Nat) := toInt_of_lt (by omega)
  have hrow : 24 / 8 * le32 p.file posWidth % 2 ^ 32 = 3 * p.width := Nat.mod_eq_of_lt (by
    rw [Picture.width] at hw
    omega)
  simp only [readImage, hsize, hread, hint, p.bbp, hrow, Nat.sub_self, List.range_zero,
    List.map_nil, List.append_nil]
  rfl

theorem framed_readImage : Framed (readImage p.file heap) := by
  have hcomplete := p.complete
  have hsmall := p.size_le
  have hstride := p.stride_eq
  have hsize : le32 p.file posImgSize = p.height * p.stride := by
    rw [p.imgSize, Nat.mul_comm]
    rfl
  rw [readImage_eq]
  refine ⟨rfl, rfl, ?_, ?_, ?_⟩
  · rw [hstride]
  · show _ = p.height * (3 * p.width + p.width % 4)
    rw [← hstride, List.length_take, List.length_drop]
    omega
  · show p.height * (3 * p.width + p.width % 4) < 2 ^ 31
    rw [← hstride]
    omega

theorem stride_readImage : (readImage p.file heap).stride = p.stride := by
  rw [readImage_eq, Picture.stride_eq]
  rfl

theorem byte_readImage {r c : Nat} (hr : r < p.height) (hc : c < p.stride) :
    (readImage p.file heap).byte (readImage p.file heap).pixelArray r c = p.fileByte r c := by
  have hcell := cellAt_lt_of_lt hr hc
  rw [Image.byte, stride_readImage, readImage_eq, cell, Picture.fileByte,
    List.getD_eq_getElem?_getD, List.getD_eq_getElem?_getD, List.getElem?_take_of_lt hcell,
    List.getElem?_drop]

omit p in
theorem loadBmp_of_passes {file : List UInt8} {img : Image} {rgb pixels : List UInt8}
    (hident : file.getD 0 0 = 66) (himg : readImage file heap = img)
    (hconvert : convertToRgb img = .ok (some rgb))
    (hreverse : reversePixelArray { img with pixelArray := rgb } = .ok (some pixels)) :
    loadBmp file heap = .ok (.image { img with pixelArray := pixels }) := by
  rw [loadBmp, if_neg (fun h => h.1 hident), himg]
  simp only [hconvert, hreverse, Except.bind, bind]

/-- `load_bmp` on a well-formed file. -/
theorem loadBmp_eq :
    ∃ pixels,
      loadBmp p.file heap = .ok (.image { readImage p.file heap with pixelArray := pixels }) ∧
      pixels.length = p.height * p.stride ∧
      ∀ n < p.height * p.stride, pixels.getD n 0 = p.rgbByte n := by
  have hf := framed_readImage p heap
  have hstride := stride_readImage p heap
  have hbyte := @byte_readImage p heap
  have hrow : (readImage p.file heap).rowLength = 3 * p.width := by rw [readImage_eq]
  have hheight : (readImage p.file heap).height = p.height := by rw [readImage_eq]
  obtain ⟨img, himg⟩ : ∃ img, readImage p.file heap = img := ⟨_, rfl⟩
  rw [himg] at hf hstride hbyte hrow hheight ⊢
  obtain ⟨rgb, pixels, hconvert, hreverse, hlen, hpixels⟩ := passes_eq hf
  rw [hheight, hstride] at hlen
  simp only [hheight, hstride, hrow] at hpixels
  refine ⟨pixels, loadBmp_of_passes heap p.ident.1 himg hconvert hreverse, hlen, ?_⟩
  · intro n hn
    obtain ⟨r, c, hr, hc, rfl⟩ := exists_cellAt hn
    have hdiv : cellAt p.stride r c / p.stride = r := by
      rw [cellAt, Nat.mul_comm, Nat.mul_add_div (by omega), Nat.div_eq_of_lt hc, Nat.add_zero]
    have hmod : cellAt p.stride r c % p.stride = c := by
      rw [cellAt, Nat.mul_comm, Nat.mul_add_mod, Nat.mod_eq_of_lt hc]
    have hcell : pixels.getD (cellAt p.stride r c) 0 = img.byte pixels r c := by
      rw [Image.byte, hstride, cell]
    rw [hcell, hpixels r hr c hc, Picture.rgbByte, hdiv, hmod]
    by_cases hpix : c < 3 * p.width
    · have hle := p.stride_eq
      have hmirror : mirrored c = 3 * (c / 3) + (2 - c % 3) := by
        rw [mirrored]
        omega
      rw [if_pos hpix, if_pos hpix, Image.opposite, hheight,
        hbyte (show p.height - 1 - r < p.height by omega) (by omega), Picture.channel, hmirror]
    · rw [if_neg hpix, if_neg hpix, hbyte hr hc]

end Loads

-- ============================================================================
-- Drawing
-- ============================================================================

/-- Three bytes of the block, taken for blue, green and red. -/
def Picture.drawnColour (p : Picture) (x y : Nat) : Nat :=
  (p.rgbByte (3 * (x + y * p.width) + 2)).toNat <<< 16
    ||| (p.rgbByte (3 * (x + y * p.width) + 1)).toNat <<< 8
    ||| (p.rgbByte (3 * (x + y * p.width))).toNat

section Draws

variable (p : Picture)

theorem pixelColor_eq {img : Image} (hbbp : img.bbp = 24) (hwidth : img.width = p.width)
    (hlen : img.pixelArray.length = p.height * p.stride)
    (hbytes : ∀ n < p.height * p.stride, img.pixelArray.getD n 0 = p.rgbByte n)
    {x y : Nat} (hy : y < p.height) (hx : x < p.width) :
    pixelColor img x y = .ok (p.drawnColour x y) := by
  have hlt := p.pixel_lt hy hx (show 2 < 3 by omega)
  have hsmall := p.size_le
  have hpos : pixelPos img x y = 3 * (x + y * p.width) := by
    rw [pixelPos, hbbp, hwidth, Nat.mod_eq_of_lt (by omega)]
    omega
  have hload : ∀ k < 3, load img.pixelArray (3 * (x + y * p.width) + k)
      = .ok (p.rgbByte (3 * (x + y * p.width) + k)) := by
    intro k hk
    have hin : 3 * (x + y * p.width) + k < img.pixelArray.length := by omega
    rw [load_getD hin 0, hbytes _ (by omega)]
  have hlow := hload 0 (by omega)
  rw [Nat.add_zero] at hlow
  simp only [pixelColor, hpos, hload 2 (by omega), hload 1 (by omega), hlow, Except.bind, bind]
  rfl

theorem drawImage_eq {img : Image} (hbbp : img.bbp = 24) (hwidth : img.width = p.width)
    (hheight : img.height = p.height) (hlen : img.pixelArray.length = p.height * p.stride)
    (hbytes : ∀ n < p.height * p.stride, img.pixelArray.getD n 0 = p.rgbByte n) :
    drawImage img = .ok (p.screen p.drawnColour) := by
  have hrow : ∀ y ∈ List.range p.height,
      ((List.range p.width).mapM fun x => do
          let color ← pixelColor img x y
          (.ok { x, y, color } : Except Fault SetPixel))
        = .ok ((List.range p.width).map fun x => { x, y, color := p.drawnColour x y }) := by
    intro y hy
    apply mapM_eq_map
    intro x hx
    rw [pixelColor_eq p hbbp hwidth hlen hbytes (List.mem_range.mp hy) (List.mem_range.mp hx)]
    rfl
  rw [drawImage, hheight, hwidth, mapM_eq_map _ hrow]
  rfl

/-- What the viewer draws. -/
theorem main_eq (heap : Nat → UInt8) :
    main p.file heap = .ok (some (fillRect 0 0 480 272 0 ++ p.screen p.drawnColour)) := by
  obtain ⟨pixels, hload, hlen, hbytes⟩ := loadBmp_eq p heap
  have hdraw := drawImage_eq p
    (show ({ readImage p.file heap with pixelArray := pixels } : Image).bbp = 24 from p.bbp)
    rfl rfl hlen hbytes
  rw [main, bind_of_ok hload]
  exact bind_of_ok hdraw

/-- Two drawings of the picture are the same if every colour is. -/
theorem Picture.screen_inj {f g : Nat → Nat → Nat} :
    p.screen f = p.screen g ↔ ∀ y < p.height, ∀ x < p.width, f x y = g x y := by
  refine ⟨?_, ?_⟩
  · intro heq y hy x hx
    have hmem : ({ x, y, color := f x y } : SetPixel) ∈ p.screen f :=
      List.mem_flatMap.mpr ⟨y, List.mem_range.mpr hy, List.mem_map.mpr ⟨x, List.mem_range.mpr hx, rfl⟩⟩
    rw [heq] at hmem
    obtain ⟨y', _, hmem⟩ := List.mem_flatMap.mp hmem
    obtain ⟨x', _, hsame⟩ := List.mem_map.mp hmem
    obtain ⟨rfl, rfl, hcolor⟩ := SetPixel.mk.inj hsame
    exact hcolor.symm
  · intro h
    apply List.flatMap_congr
    intro y hy
    apply List.map_congr_left
    intro x hx
    rw [h y (List.mem_range.mp hy) x (List.mem_range.mp hx)]

/-- The three bytes of a colour do not overlap. -/
theorem rgb_inj {r g b r' g' b' : UInt8} :
    r.toNat <<< 16 ||| g.toNat <<< 8 ||| b.toNat = r'.toNat <<< 16 ||| g'.toNat <<< 8 ||| b'.toNat
      ↔ b = b' ∧ g = g' ∧ r = r' := by
  have hsum : ∀ r g b : UInt8, r.toNat <<< 16 ||| g.toNat <<< 8 ||| b.toNat
      = 65536 * r.toNat + 256 * g.toNat + b.toNat := by
    intro r g b
    have hg := g.toNat_lt
    have hb := b.toNat_lt
    rw [Nat.or_assoc, ← Nat.shiftLeft_add_eq_or_of_lt hb, Nat.shiftLeft_eq g.toNat,
      ← Nat.shiftLeft_add_eq_or_of_lt (by omega), Nat.shiftLeft_eq]
    omega
  have h₁ := g.toNat_lt
  have h₂ := b.toNat_lt
  have h₃ := g'.toNat_lt
  have h₄ := b'.toNat_lt
  simp only [hsum, ← UInt8.toNat_inj]
  omega

/-- The viewer shows the picture exactly if the bytes it takes for blue, green and red
    are these. -/
theorem screen_eq_iff : p.screen p.drawnColour = p.screen p.colour ↔ p.Agrees := by
  rw [Picture.screen_inj, Picture.Agrees]
  refine forall₂_congr fun y hy => forall₂_congr fun x hx => ?_
  rw [Picture.drawnColour, Picture.colour, rgb_inj]
  refine ⟨?_, ?_⟩
  · rintro ⟨h₀, h₁, h₂⟩ k hk
    obtain rfl | rfl | rfl : k = 0 ∨ k = 1 ∨ k = 2 := by omega
    · exact h₀
    · exact h₁
    · exact h₂
  · intro h
    exact ⟨h 0 (by omega), h 1 (by omega), h 2 (by omega)⟩

/-- Where no padding is in the way, red and blue have to be the same. -/
theorem agrees_iff (h : p.width % 4 = 0 ∨ p.height ≤ 1) :
    p.Agrees ↔ ∀ y < p.height, ∀ x < p.width, p.red x y = p.blue x y := by
  have hstride := p.stride_eq
  have hswap : ∀ y < p.height, ∀ x < p.width, ∀ k < 3,
      p.rgbByte (3 * (x + y * p.width) + k) = p.channel (2 - k) x y := by
    intro y hy x hx k hk
    have hc : 3 * x + k < p.stride := by omega
    have hrow : 3 * (x + y * p.width) + k = p.stride * y + (3 * x + k) := by
      rcases h with hpad | hone
      · rw [hstride, hpad, Nat.add_zero, Nat.mul_assoc, Nat.mul_comm p.width y]
        omega
      · obtain rfl : y = 0 := by omega
        rw [Nat.mul_zero, Nat.zero_mul]
        omega
    have hdiv : (p.stride * y + (3 * x + k)) / p.stride = y := by
      rw [Nat.mul_add_div (by omega), Nat.div_eq_of_lt hc, Nat.add_zero]
    have hmod : (p.stride * y + (3 * x + k)) % p.stride = 3 * x + k := by
      rw [Nat.mul_add_mod, Nat.mod_eq_of_lt hc]
    rw [hrow, Picture.rgbByte, hdiv, hmod, if_pos (by omega), show (3 * x + k) % 3 = k by omega,
      show (3 * x + k) / 3 = x by omega]
  refine ⟨?_, ?_⟩
  · intro hagrees y hy x hx
    have hblue := hagrees y hy x hx 0 (by omega)
    rwa [hswap y hy x hx 0 (by omega)] at hblue
  · intro hsame y hy x hx k hk
    have hred := hsame y hy x hx
    rw [hswap y hy x hx k hk]
    obtain rfl | rfl | rfl : k = 0 ∨ k = 1 ∨ k = 2 := by omega
    · exact hred
    · rfl
    · exact hred.symm

/-- The viewer shows a well-formed picture in its own colours exactly if the picture, in
    the order red, green, blue and with padding, begins like itself in the order blue,
    green, red without padding.  If no padding is in the way, it has red and blue alike. -/
theorem main_shows_iff (heap : Nat → UInt8) :
    (main p.file heap = .ok (some (fillRect 0 0 480 272 0 ++ p.screen p.colour)) ↔ p.Agrees) ∧
    (p.width % 4 = 0 ∨ p.height ≤ 1 →
      (p.Agrees ↔ ∀ y < p.height, ∀ x < p.width, p.red x y = p.blue x y)) := by
  refine ⟨?_, agrees_iff p⟩
  rw [main_eq, ← screen_eq_iff]
  refine ⟨?_, ?_⟩
  · intro h
    exact List.append_cancel_left (Option.some.inj (Except.ok.inj h))
  · intro h
    rw [h]

end Draws

/-- A file with one pixel. -/
def pixelFile (blue green red : UInt8) : List UInt8 :=
  [66, 77, 58, 0, 0, 0, 0, 0, 0, 0, 54, 0, 0, 0] ++
  [40, 0, 0, 0, 1, 0, 0, 0, 1, 0, 0, 0, 1, 0, 24, 0, 0, 0, 0, 0, 4, 0, 0, 0] ++
  [0, 0, 0, 0, 0, 0, 0, 0, 0, 0, 0, 0, 0, 0, 0, 0] ++ [blue, green, red, 0]

theorem le32_pixelFile (blue green red : UInt8) :
    le32 (pixelFile blue green red) posWidth = 1 ∧ le32 (pixelFile blue green red) posHeight = 1 ∧
    le32 (pixelFile blue green red) posImgSize = 4 ∧
    le32 (pixelFile blue green red) posPixArrayOffset = 54 :=
  ⟨rfl, rfl, rfl, rfl⟩

def onePixel (blue green red : UInt8) : Picture where
  file := pixelFile blue green red
  ident := ⟨rfl, rfl⟩
  infoHeader := rfl
  planes := rfl
  bbp := rfl
  compression := rfl
  fitsWidth := by rw [(le32_pixelFile ..).1]; omega
  fitsHeight := by rw [(le32_pixelFile ..).2.1]; omega
  imgSize := by rw [(le32_pixelFile ..).1, (le32_pixelFile ..).2.1, (le32_pixelFile ..).2.2.1]
  offset := by rw [(le32_pixelFile ..).2.2.2]
  complete := by
    rw [(le32_pixelFile ..).2.2.1, (le32_pixelFile ..).2.2.2]
    exact Nat.le_refl 58

/-- A grey pixel is shown as it is. -/
theorem main_shows_grey :
    (onePixel 128 128 128).Agrees ∧
    main (pixelFile 128 128 128) (fun _ => 0)
      = .ok (some (fillRect 0 0 480 272 0 ++ [{ x := 0, y := 0, color := 0x808080 }])) := by
  have hgrey : (onePixel 128 128 128).Agrees :=
    ((main_shows_iff (onePixel 128 128 128) fun _ => 0).2 (.inr (Nat.le_refl 1))).mpr (by decide)
  exact ⟨hgrey, (main_shows_iff (onePixel 128 128 128) fun _ => 0).1.mpr hgrey⟩

/-- A red pixel is shown in blue. -/
theorem main_shows_red_blue :
    main (onePixel 0 0 255).file (fun _ => 0)
      = .ok (some (fillRect 0 0 480 272 0 ++ [{ x := 0, y := 0, color := 0x0000ff }])) ∧
    (onePixel 0 0 255).screen (onePixel 0 0 255).colour
      = [{ x := 0, y := 0, color := 0xff0000 }] ∧
    main (onePixel 0 0 255).file (fun _ => 0)
      ≠ .ok (some (fillRect 0 0 480 272 0 ++ (onePixel 0 0 255).screen (onePixel 0 0 255).colour)) := by
  have hdrawn : (onePixel 0 0 255).screen (onePixel 0 0 255).drawnColour
      = [{ x := 0, y := 0, color := 0x0000ff }] := by decide
  have hcolour : (onePixel 0 0 255).screen (onePixel 0 0 255).colour
      = [{ x := 0, y := 0, color := 0xff0000 }] := by decide
  rw [main_eq, hdrawn, hcolour]
  refine ⟨rfl, rfl, ?_⟩
  intro h
  have hsame := List.append_cancel_left (Option.some.inj (Except.ok.inj h))
  exact absurd hsame (by decide)

end LinuxCodeDemos.Bmp

/-
  LinuxCodeDemos.Bmp.Pixels

  The two passes as transformations of the picture: `reverse_pixel_array` turns the rows over and
  is its own inverse (`reversePixelArray_flips`), `convert_to_rgb` exchanges red and blue of every
  pixel (`convertToRgb_swaps`).  Both leave the padding.
-/

import LinuxCodeDemos.Bmp.Passes

namespace LinuxCodeDemos.Bmp

open Lib

section Blocks

variable {img : Image} {pixels pixels' : List UInt8}

/-- A block is its bytes. -/
theorem ext_byte (hlen : pixels.length = img.height * img.stride)
    (hlen' : pixels'.length = img.height * img.stride)
    (h : ∀ r < img.height, ∀ c < img.stride, img.byte pixels r c = img.byte pixels' r c) :
    pixels = pixels' := by
  apply List.ext_getElem (hlen.trans hlen'.symm)
  intro n hn hn'
  obtain ⟨r, c, hr, hc, rfl⟩ := exists_cellAt (hlen ▸ hn)
  have hbyte := h r hr c hc
  rw [Image.byte, Image.byte, cell, cell, List.getD_eq_getElem _ _ hn,
    List.getD_eq_getElem _ _ hn'] at hbyte
  exact hbyte

end Blocks

section Pictures

variable {img : Image}

/-- `reverse_pixel_array` turns the rows over, leaves the padding, and undoes itself. -/
theorem reversePixelArray_flips (hf : Framed img) :
    ∃ pixels, reversePixelArray img = .ok (some pixels) ∧
      pixels.length = img.pixelArray.length ∧
      (∀ r < img.height, ∀ c < img.rowLength,
        img.byte pixels r c = img.byte img.pixelArray (img.height - 1 - r) c) ∧
      (∀ r < img.height, ∀ c < img.stride, img.rowLength ≤ c →
        img.byte pixels r c = img.byte img.pixelArray r c) ∧
      reversePixelArray { img with pixelArray := pixels } = .ok (some img.pixelArray) := by
  have hle := img.rowLength_le
  obtain ⟨pixels, hreverse, hlen, hbytes⟩ := reversePixelArray_eq hf
  obtain ⟨again, hreverse', hlen', hbytes'⟩ := reversePixelArray_eq (hf.withPixels hlen)
  refine ⟨pixels, hreverse, hlen.trans hf.length.symm, ?_, ?_, ?_⟩
  · intro r hr c hc
    rw [hbytes r hr c (by omega), if_pos hc, Image.opposite]
  · intro r hr c hc hpad
    rw [hbytes r hr c hc, if_neg (by omega)]
  · -- a byte goes to the opposite row and back
    have hsame : again = img.pixelArray := by
      refine @ext_byte img again img.pixelArray hlen' hf.length fun r hr c hc => ?_
      have hback : img.byte again r c
          = img.byte pixels (if c < img.rowLength then img.opposite r else r) c := hbytes' r hr c hc
      rw [hback]
      by_cases hpix : c < img.rowLength
      · rw [if_pos hpix, hbytes _ (Image.opposite_lt hr) c hc, if_pos hpix,
          Image.opposite_opposite hr]
      · rw [if_neg hpix, hbytes r hr c hc, if_neg hpix]
    rw [hreverse', hsame]

/-- `convert_to_rgb` exchanges the first and the third byte of every pixel and nothing else; rows
    are padded to a multiple of 4. -/
theorem convertToRgb_swaps (hf : Framed img) :
    (∃ pixels, convertToRgb img = .ok (some pixels) ∧
      pixels.length = img.pixelArray.length ∧
      (∀ r < img.height, ∀ x < img.width,
        img.byte pixels r (3 * x) = img.byte img.pixelArray r (3 * x + 2) ∧
        img.byte pixels r (3 * x + 1) = img.byte img.pixelArray r (3 * x + 1) ∧
        img.byte pixels r (3 * x + 2) = img.byte img.pixelArray r (3 * x)) ∧
      (∀ r < img.height, ∀ c < img.stride, img.rowLength ≤ c →
        img.byte pixels r c = img.byte img.pixelArray r c)) ∧
    img.rowLength + img.padding = (3 * img.width + 3) / 4 * 4 := by
  have hrow := hf.rowLength
  have hpadding := hf.padding
  have hle := img.rowLength_le
  obtain ⟨pixels, hconvert, hlen, hbytes⟩ := convertToRgb_eq hf
  refine ⟨⟨pixels, hconvert, hlen.trans hf.length.symm, ?_, ?_⟩, ?_⟩
  · intro r hr x hx
    have hmirrored : ∀ k < 3, img.byte pixels r (3 * x + k)
        = img.byte img.pixelArray r (3 * x + (2 - k)) := by
      intro k hk
      rw [hbytes r hr _ (by omega), if_pos (by omega), mirrored]
      congr 1
      omega
    exact ⟨hmirrored 0 (by omega), hmirrored 1 (by omega), hmirrored 2 (by omega)⟩
  · intro r hr c hc hpad
    rw [hbytes r hr c hc, if_neg (by omega)]
  · omega

end Pictures

/-- Two rows of one pixel, with one byte of padding each. -/
def twoRows : Image :=
  { pixelArray := [1, 2, 3, 4, 5, 6, 7, 8], padding := 1, pixelArraySize := 8, width := 1
    height := 2, rowLength := 3, bbp := 24 }

theorem framed_twoRows : Framed twoRows := ⟨rfl, rfl, rfl, rfl, by decide⟩

theorem reversePixelArray_twoRows :
    reversePixelArray twoRows = .ok (some [5, 6, 7, 4, 1, 2, 3, 8]) ∧
    ∃ pixels, reversePixelArray twoRows = .ok (some pixels) ∧
      reversePixelArray { twoRows with pixelArray := pixels } = .ok (some twoRows.pixelArray) := by
  obtain ⟨pixels, hreverse, -, -, -, hagain⟩ := reversePixelArray_flips framed_twoRows
  exact ⟨by decide, pixels, hreverse, hagain⟩

theorem convertToRgb_twoRows :
    convertToRgb twoRows = .ok (some [3, 2, 1, 4, 7, 6, 5, 8]) ∧
    twoRows.rowLength + twoRows.padding = (3 * twoRows.width + 3) / 4 * 4 :=
  ⟨by decide, (convertToRgb_swaps framed_twoRows).2⟩

end LinuxCodeDemos.Bmp

/-
  LinuxCodeDemos.Bmp.Image

  The viewer of `linux_bmp_show`: `load_bmp` with its two in-place passes over the
  pixels, and the drawing loop of `main`.

  - A file is its bytes.  `fread` of a header from a file that is too short leaves
    the zeros of the globals.
  - `heap` is what the block from `malloc` holds before `fread` fills it.
  - `int` indexes count up from zero; the `uint32_t` products and differences wrap.
  - `i = i + padding - 1; continue;` and the `i++` of the loop are `i + padding`, the one
    sum of the loops that an `int` may not hold (`skipPadding`).
    With no padding and no pixels in a row the loops never end.
-/

import LinuxCodeDemos.Lib.Bytes
import LinuxCodeDemos.Lib.While

namespace LinuxCodeDemos.Bmp

open Lib

-- ============================================================================
-- Headers
-- ============================================================================

/-- A `uint32_t` stored into an `int`. -/
def toInt (n : Nat) : Int := (n : Int).bmod (2 ^ 32)

theorem toInt_of_lt {n : Nat} (h : n < 2 ^ 31) : toInt n = n := by
  apply Int.bmod_eq_of_le
  · omega
  · omega

/-- From `2^31` on the `int` is negative. -/
theorem toInt_of_ge {n : Nat} (h : 2 ^ 31 ≤ n) (hn : n < 2 ^ 32) :
    toInt n = (n : Int) - (2 ^ 32 : Nat) := by
  apply Eq.trans (Int.sub_bmod_right n (2 ^ 32)).symm
  apply Int.bmod_eq_of_le
  · omega
  · omega

-- Offsets of the fields of `struct BmpHeader` and, behind it, of `struct BITMAPINFOHEADER`.
def posPixArrayOffset : Nat := 10
def posWidth : Nat := 18
def posHeight : Nat := 22
def posBbp : Nat := 28
def posCompressionMethod : Nat := 30
def posImgSize : Nat := 34

/-- `struct image`. -/
structure Image where
  pixelArray : List UInt8
  padding : Nat
  pixelArraySize : Int
  width : Nat
  height : Nat
  rowLength : Nat
  bbp : Nat
  deriving DecidableEq, Repr

/-- `i + padding`, an `int`. -/
def skipPadding (img : Image) (i : Nat) : Except Fault Nat :=
  if i + img.padding ≤ intMax then .ok (i + img.padding) else .error .overflow

-- ============================================================================
-- `convert_to_rgb`
-- ============================================================================

inductive Colour where
  | blue
  | green
  | red
  deriving DecidableEq, Repr

/-- The locals of `convert_to_rgb` and the pixels. -/
structure Convert where
  i : Nat
  rowPos : Nat
  flag : Colour
  temp : UInt8
  pixels : List UInt8
  deriving DecidableEq, Repr

/-- One turn of the loop of `convert_to_rgb`. -/
def convertTurn (img : Image) (s : Convert) : Except Fault Convert :=
  if s.rowPos = img.rowLength then do
    let i ← skipPadding img s.i
    .ok { s with rowPos := 0, i }
  else
    match s.flag with
    | .blue => do
        let temp ← load s.pixels s.i
        .ok { s with temp, flag := .green, rowPos := s.rowPos + 1, i := s.i + 1 }
    | .green => .ok { s with flag := .red, rowPos := s.rowPos + 1, i := s.i + 1 }
    | .red => do
        let red ← load s.pixels s.i
        let pixels ← store s.pixels (s.i - 2) [red]
        let pixels ← store pixels s.i [s.temp]
        .ok { s with pixels, flag := .blue, rowPos := s.rowPos + 1, i := s.i + 1 }

/-- `convert_to_rgb`: the pixels afterwards.  Of two turns in a row at least one
    advances, unless the loop never ends. -/
def convertToRgb (img : Image) : Except Fault (Option (List UInt8)) := do
  let s ← whileLoop (fun s : Convert => (s.i : Int) < img.pixelArraySize) (convertTurn img)
    (2 * img.pixelArraySize.toNat + 1)
    { i := 0, rowPos := 0, flag := .blue, temp := 0, pixels := img.pixelArray }
  .ok (s.map Convert.pixels)

-- ============================================================================
-- `reverse_pixel_array`
-- ============================================================================

/-- The locals of `reverse_pixel_array` and the pixels. -/
structure Reverse where
  i : Nat
  rowPos : Nat
  rowCount : Nat
  oppositeRowI : Nat
  pixels : List UInt8
  deriving DecidableEq, Repr

/-- `(row_length + padding) * (height - row_count)` on `uint32_t`. -/
def oppositeRow (img : Image) (rowCount : Nat) : Nat :=
  (img.rowLength + img.padding) * ((img.height + 2 ^ 32 - rowCount) % 2 ^ 32) % 2 ^ 32

/-- One turn of the loop of `reverse_pixel_array`. -/
def reverseTurn (img : Image) (s : Reverse) : Except Fault Reverse :=
  if s.rowPos = img.rowLength then do
    let i ← skipPadding img s.i
    .ok { s with
      rowCount := s.rowCount + 1
      oppositeRowI := oppositeRow img (s.rowCount + 1)
      rowPos := 0
      i }
  else do
    let temp ← load s.pixels s.i
    let opposite ← load s.pixels s.oppositeRowI
    let pixels ← store s.pixels s.i [opposite]
    let pixels ← store pixels s.oppositeRowI [temp]
    .ok { s with
      pixels, oppositeRowI := s.oppositeRowI + 1, rowPos := s.rowPos + 1, i := s.i + 1 }

/-- `reverse_pixel_array`: the pixels afterwards. -/
def reversePixelArray (img : Image) : Except Fault (Option (List UInt8)) := do
  let half := img.pixelArraySize.tdiv 2
  let s ← whileLoop (fun s : Reverse => (s.i : Int) < half) (reverseTurn img)
    (2 * half.toNat + 1)
    { i := 0, rowPos := 0, rowCount := 1, oppositeRowI := oppositeRow img 1
      pixels := img.pixelArray }
  .ok (s.map Reverse.pixels)

-- ============================================================================
-- `load_bmp`
-- ============================================================================

inductive Loaded where
  | null
  | endless
  | image (img : Image)
  deriving DecidableEq, Repr

/-- The image that `load_bmp` fills in before it converts the pixels. -/
def readImage (file : List UInt8) (heap : Nat → UInt8) : Image :=
  let size := le32 file posImgSize
  let read := (file.drop (le32 file posPixArrayOffset)).take size
  { pixelArray := read ++ (List.range (size - read.length)).map fun i => heap (read.length + i)
    padding := le32 file posWidth % 4
    pixelArraySize := toInt size
    width := le32 file posWidth
    height := le32 file posHeight
    rowLength := le16 file posBbp / 8 * le32 file posWidth % 2 ^ 32
    bbp := le16 file posBbp }

/-- `load_bmp` on a file that can be opened. -/
def loadBmp (file : List UInt8) (heap : Nat → UInt8) : Except Fault Loaded :=
  if file.getD 0 0 ≠ 66 ∧ file.getD 1 0 ≠ 77 then .ok .null
  else do
    let img := readImage file heap
    match ← convertToRgb img with
    | none => .ok .endless
    | some pixels => do
        let img := { img with pixelArray := pixels }
        match ← reversePixelArray img with
        | none => .ok .endless
        | some pixels => .ok (.image { img with pixelArray := pixels })

-- ============================================================================
-- `main`
-- ============================================================================

/-- A call `fb_setpixel (480, 272, x, y, color)`. -/
structure SetPixel where
  x : Nat
  y : Nat
  color : Nat
  deriving DecidableEq, Repr

/-- `fill_rect`. -/
def fillRect (x0 y0 x1 y1 color : Nat) : List SetPixel :=
  (List.range' y0 (y1 - y0)).flatMap fun y => (List.range' x0 (x1 - x0)).map fun x => { x, y, color }

/-- `pos` in the drawing loop. -/
def pixelPos (img : Image) (x y : Nat) : Nat := (x + y * img.width) * img.bbp % 2 ^ 32 / 8

/-- The colour that the drawing loop computes for a position. -/
def pixelColor (img : Image) (x y : Nat) : Except Fault Nat := do
  let pos := pixelPos img x y
  let high ← load img.pixelArray (pos + 2)
  let middle ← load img.pixelArray (pos + 1)
  let low ← load img.pixelArray pos
  .ok (high.toNat <<< 16 ||| middle.toNat <<< 8 ||| low.toNat)

/-- The drawing loop of `main`. -/
def drawImage (img : Image) : Except Fault (List SetPixel) := do
  let rows ← (List.range img.height).mapM fun y =>
    (List.range img.width).mapM fun x => do
      let color ← pixelColor img x y
      .ok { x, y, color }
  .ok rows.flatten

/-- `main`: its calls of `fb_setpixel`, `none` if it never gets to draw. -/
def main (file : List UInt8) (heap : Nat → UInt8) : Except Fault (Option (List SetPixel)) := do
  match ← loadBmp file heap with
  | .null => .error .read
  | .endless => .ok none
  | .image img => do
      let drawn ← drawImage img
      .ok (some (fillRect 0 0 480 272 0 ++ drawn))

end LinuxCodeDemos.Bmp

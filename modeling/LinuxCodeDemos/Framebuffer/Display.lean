/-
  LinuxCodeDemos.Framebuffer.Display

  The camera frame on the screen of framebuffer.c: `window_cut`, which centres
  the frame and the screen on each other, and `display_direct_to_fb`, which walks
  both in step and sets one or two pixels a turn.

  The run of the function is the list of what it does with `int`s, frame and
  screen.  `displayDirectToFb_inside_iff` says when all of it stays inside: the
  column loop adds the line offset of the screen to its width where the column
  offset is meant, so a frame that is wider than the screen and leaves lines free
  above it runs over the right edge.
-/

import LinuxCodeDemos.Lib.Lockstep
import LinuxCodeDemos.Lib.Memory

namespace LinuxCodeDemos.Framebuffer

open Lib

-- ============================================================================
-- Frame, screen and events
-- ============================================================================

/-- What `DF_IS_RGB888` and then `DF_IS_YCbCr422` say of `dis->fmt.fourcc`. -/
inductive Fourcc
  | rgb888
  | yCbCr422
  | yCbCr444
  deriving DecidableEq

/-- `struct display_info`, as far as it is read. -/
structure DisplayInfo where
  xoff : Int
  yoff : Int
  width : Int
  height : Int
  fourcc : Fourcc
  planar : Bool
  onlyY : Bool

/-- `struct fb_info`, as far as it is read. -/
structure FbInfo where
  xoff : Int
  yoff : Int
  xres : Int
  yres : Int

/-- `struct rgb888_sample` and `struct yuv444_sample`. -/
structure Sample3 where
  b1 : UInt8
  b2 : UInt8
  b3 : UInt8

/-- `struct yuv422_sample`. -/
structure Sample4 where
  b1 : UInt8
  b2 : UInt8
  b3 : UInt8
  b4 : UInt8

/-- The functions of convert.h for the `format` of the frame, which order the bytes of a
    sample. -/
structure Convert where
  rgb888 : Sample3 → Sample3
  yCbCr422 : Sample4 → Sample4
  yCbCr444 : Sample3 → Sample3

/-- The part of the frame that a sample is in: all of it, or one of the planes. -/
inductive Plane
  | packed
  | y
  | cb
  | cr
  deriving DecidableEq

/-- What a run does: the value of an `int` expression, `size` bytes read at `off` of the
    frame for `line`, a call of `fb_set_a_pixel`. -/
inductive Event
  | int (value : Int)
  | sample (plane : Plane) (line off size : Int)
  | pixel (line col : Int) (red green blue : UInt8)
  deriving DecidableEq

-- ============================================================================
-- `window_cut`
-- ============================================================================

/-- One direction of `window_cut`: the offsets of a frame of `len` pixels on a screen of
    `res`, from those before.  The differences of two sizes are always `int`s. -/
def cutAxis (len res off fbOff : Int) : Int × Int :=
  if len > res then ((len - res).tdiv 2, fbOff)
  else if len < res then (off, (res - len).tdiv 2)
  else (0, 0)

/-- `window_cut`. -/
def windowCut (dis : DisplayInfo) (fb : FbInfo) : DisplayInfo × FbInfo :=
  let (xoff, fbXoff) := cutAxis dis.width fb.xres dis.xoff fb.xoff
  let (yoff, fbYoff) := cutAxis dis.height fb.yres dis.yoff fb.yoff
  ({ dis with xoff, yoff }, { fb with xoff := fbXoff, yoff := fbYoff })

-- ============================================================================
-- `display_direct_to_fb`
-- ============================================================================

/-- The `y0`, `y1`, `u` and `v` of two neighbouring pixels. -/
structure Yuv where
  y0 : UInt8
  y1 : UInt8
  u : UInt8
  v : UInt8

/-- Where the `y`, `cb` and `cr` pointers stand in the frame. -/
structure Planes where
  y : Int
  cb : Int
  cr : Int

def planes (dis : DisplayInfo) : Planes :=
  let imgSize := dis.width * dis.height
  match dis.fourcc with
  | .yCbCr422 => { y := 0, cb := imgSize, cr := imgSize + imgSize.tdiv 2 }
  | _ => { y := 0, cb := imgSize, cr := imgSize + imgSize }

def clampColor (color : Int) : Int :=
  if color < 0 then 0 else if color > 255 then 255 else color

/-- One pixel from the YUV domain to the RGB domain, and `fb_set_a_pixel`. -/
def setYuvPixel (line col : Int) (y u v : UInt8) : Event :=
  let y : Int := y.toNat
  let u : Int := u.toNat
  let v : Int := v.toNat
  let colorB := clampColor (y + ((443 * (u - 128)) >>> (8 : Nat)))
  let colorG := clampColor (y - ((179 * (v - 128) + 86 * (u - 128)) >>> (8 : Nat)))
  let colorR := clampColor (y + ((351 * (v - 128)) >>> (8 : Nat)))
  -- the parameters of `fb_set_a_pixel` are `red`, `green`, `blue`, in this order
  .pixel line col (UInt8.ofInt colorB) (UInt8.ofInt colorG) (UInt8.ofInt colorR)

def mean (a b : UInt8) : UInt8 := UInt8.ofNat ((a.toNat + b.toNat) / 2)

section Run

variable (conv : Convert) (frame : Int → UInt8)

def sample3 (off : Int) : Sample3 := ⟨frame off, frame (off + 1), frame (off + 2)⟩

def sample4 (off : Int) : Sample4 :=
  ⟨frame off, frame (off + 1), frame (off + 2), frame (off + 3)⟩

/-- A turn of the RGB888 loop, with `rgb888_pixel` at `off`. -/
def rgbTurn (line fbLine fbCol off : Int) : List Event :=
  let samp := conv.rgb888 (sample3 frame off)
  [.sample .packed line off 3, .pixel fbLine fbCol samp.b1 samp.b2 samp.b3]

/-- The samples of a turn of the YUV loop; `turn` is the number of turns before it, by
    which `yuv422_pixel` or `yuv444_pixel` has moved on. -/
def yuvSamples (dis : DisplayInfo) (turn : Nat) (line col : Int) : List Event × Yuv :=
  let ptr := planes dis
  let w := dis.width
  match dis.planar, dis.fourcc with
  | false, .yCbCr422 =>
      let off := line * w * 2 + dis.xoff * 2 + 4 * turn
      let samp := conv.yCbCr422 (sample4 frame off)
      ([.sample .packed line off 4], ⟨samp.b1, samp.b3, samp.b2, samp.b4⟩)
  | false, _ =>
      let off := line * w * 3 + dis.xoff * 3 + 6 * turn
      let samp := conv.yCbCr444 (sample3 frame off)
      let samp' := conv.yCbCr444 (sample3 frame (off + 3))
      ([.sample .packed line off 3, .sample .packed line (off + 3) 3],
        ⟨samp.b1, samp'.b1, mean samp'.b2 samp.b2, mean samp'.b3 samp.b3⟩)
  | true, .yCbCr422 =>
      let off := line * w + col
      let uv := (line * w).tdiv 2 + col.tdiv 2
      ([.int (line * w), .sample .y line (ptr.y + off) 1, .sample .y line (ptr.y + off + 1) 1,
          .sample .cb line (ptr.cb + uv) 1, .sample .cr line (ptr.cr + uv) 1],
        ⟨frame (ptr.y + off), frame (ptr.y + off + 1), frame (ptr.cb + uv),
          frame (ptr.cr + uv)⟩)
  | true, _ =>
      let off := line * w + col
      ([.int (line * w), .sample .y line (ptr.y + off) 1, .sample .y line (ptr.y + off + 1) 1,
          .sample .cb line (ptr.cb + off) 1, .sample .cb line (ptr.cb + off + 1) 1,
          .sample .cr line (ptr.cr + off) 1, .sample .cr line (ptr.cr + off + 1) 1],
        ⟨frame (ptr.y + off), frame (ptr.y + off + 1),
          mean (frame (ptr.cb + off)) (frame (ptr.cb + off + 1)),
          mean (frame (ptr.cr + off)) (frame (ptr.cr + off + 1))⟩)

/-- A turn of the YUV loop. -/
def yuvTurn (dis : DisplayInfo) (turn : Nat) (line fbLine col fbCol : Int) : List Event :=
  let (reads, yuv) := yuvSamples conv frame dis turn line col
  let u := if dis.onlyY then 128 else yuv.u
  let v := if dis.onlyY then 128 else yuv.v
  reads ++ [setYuvPixel fbLine fbCol yuv.y0 u v, .int (fbCol + 1),
    setYuvPixel fbLine (fbCol + 1) yuv.y1 u v]

/-- The loop over the columns of a line; the second bound is as in the source. -/
def forCols (step : Int) (dis : DisplayInfo) (fb : FbInfo)
    (body : Nat → Int → Int → List Event) : List Event :=
  forBoth .int step (dis.xoff + dis.width) (fb.yoff + fb.xres) body dis.xoff fb.xoff

/-- The `int`s of the address of a line, for samples of `bytes` bytes a pixel. -/
def rowInts (dis : DisplayInfo) (line bytes : Int) : List Event :=
  [.int (line * dis.width), .int (line * dis.width * bytes), .int (dis.xoff * bytes)]

def rgbLine (dis : DisplayInfo) (fb : FbInfo) (line fbLine : Int) : List Event :=
  rowInts dis line 3 ++
    forCols 1 dis fb fun turn _ fbCol =>
      rgbTurn conv frame line fbLine fbCol (line * dis.width * 3 + dis.xoff * 3 + 3 * turn)

def yuvLine (dis : DisplayInfo) (fb : FbInfo) (line fbLine : Int) : List Event :=
  (match dis.planar, dis.fourcc with
    | false, .yCbCr422 => rowInts dis line 2
    | false, _ => rowInts dis line 3
    | true, _ => []) ++
    forCols 2 dis fb fun turn col fbCol => yuvTurn conv frame dis turn line fbLine col fbCol

/-- The loop over the lines. -/
def forLines (dis : DisplayInfo) (fb : FbInfo) (body : Int → Int → List Event) : List Event :=
  forBoth .int 1 (dis.yoff + dis.height) (fb.yoff + fb.yres)
    (fun _ line fbLine => body line fbLine) dis.yoff fb.yoff

/-- `display_direct_to_fb`. -/
def displayDirectToFb (dis : DisplayInfo) (fb : FbInfo) : List Event :=
  let (dis, fb) := windowCut dis fb
  if dis.fourcc = .rgb888 then forLines dis fb (rgbLine conv frame dis fb)
  else
    (if dis.planar then [.int (dis.width * dis.height)] else []) ++
      forLines dis fb (yuvLine conv frame dis fb)

end Run

-- ============================================================================
-- Staying inside
-- ============================================================================

/-- The sizes of a frame and of a screen, both of even width. -/
structure Sizes where
  width : Int
  height : Int
  xres : Int
  yres : Int
  width_range : 0 ≤ width ∧ width ≤ intMax
  height_range : 0 ≤ height ∧ height ≤ intMax
  xres_range : 0 ≤ xres ∧ xres ≤ intMax
  yres_range : 0 ≤ yres ∧ yres ≤ intMax
  width_even : 2 ∣ width
  xres_even : 2 ∣ xres

namespace Sizes

variable (s : Sizes)

/-- The frame before `window_cut`. -/
def display (fourcc : Fourcc) (planar onlyY : Bool) : DisplayInfo :=
  { xoff := 0, yoff := 0, width := s.width, height := s.height, fourcc, planar, onlyY }

/-- The screen before `window_cut`. -/
def screen : FbInfo := { xoff := 0, yoff := 0, xres := s.xres, yres := s.yres }

/-- The bytes of a pixel in a packed frame. -/
def bytesPerPixel : Fourcc → Int
  | .rgb888 => 3
  | .yCbCr422 => 2
  | .yCbCr444 => 3

/-- The bytes of a row of the frame or of a plane of it. -/
def rowBytes (fourcc : Fourcc) : Plane → Int
  | .packed => s.width * bytesPerPixel fourcc
  | .y => s.width
  | .cb | .cr => if fourcc = .yCbCr422 then s.width / 2 else s.width

/-- The planes stand one behind the other, each with `height` rows. -/
def planeStart (fourcc : Fourcc) : Plane → Int
  | .packed => 0
  | .y => 0
  | .cb => s.height * s.rowBytes fourcc .y
  | .cr => s.height * s.rowBytes fourcc .y + s.height * s.rowBytes fourcc .cb

/-- An `int` in its range, a sample in the row of its line, a pixel on the screen. -/
def Inside (fourcc : Fourcc) : Event → Prop
  | .int value => -2 ^ 31 ≤ value ∧ value ≤ intMax
  | .sample plane line off size =>
      (0 ≤ line ∧ line < s.height) ∧
        s.planeStart fourcc plane + line * s.rowBytes fourcc plane ≤ off ∧
        off + size ≤ s.planeStart fourcc plane + (line + 1) * s.rowBytes fourcc plane
  | .pixel line col _ _ _ => (0 ≤ line ∧ line < s.yres) ∧ 0 ≤ col ∧ col < s.xres

end Sizes

/-- The offset that centres `a` on `b`: half of what `a` is longer. -/
def cutOff (a b : Int) : Int := if b < a then (a - b) / 2 else 0

section Offsets

variable {a b n : Int}

theorem cutOff_cases (a b : Int) :
    a ≤ b ∧ cutOff a b = 0 ∨ b < a ∧ 2 * cutOff a b ≤ a - b ∧ a - b ≤ 2 * cutOff a b + 1 := by
  rw [cutOff]
  by_cases h : b < a
  · rw [if_pos h]
    omega
  · rw [if_neg h]
    omega

theorem cutOff_nonneg (a b : Int) : 0 ≤ cutOff a b := by
  have := cutOff_cases a b
  omega

theorem cutOff_of_le (h : a ≤ b) : cutOff a b = 0 := by
  have := cutOff_cases a b
  omega

theorem cutOff_pos_iff : 0 < cutOff a b ↔ b + 2 ≤ a := by
  have := cutOff_cases a b
  omega

/-- What both `a` and `b` hold stays inside `a` behind its offset. -/
theorem cutOff_add_lt (ha : n < a) (hb : n < b) : cutOff a b + n < a := by
  have := cutOff_cases a b
  omega

end Offsets

namespace Sizes

variable (s : Sizes)

/-- The frame behind `window_cut`. -/
def cutDisplay (fourcc : Fourcc) (planar onlyY : Bool) : DisplayInfo :=
  { s.display fourcc planar onlyY with
    xoff := cutOff s.width s.xres, yoff := cutOff s.height s.yres }

/-- The screen behind `window_cut`. -/
def cutScreen : FbInfo :=
  { s.screen with xoff := cutOff s.xres s.width, yoff := cutOff s.yres s.height }

end Sizes

/-- From offsets of 0, the longer one of frame and screen gets half of the difference. -/
theorem cutAxis_eq (len res : Int) : cutAxis len res 0 0 = (cutOff len res, cutOff res len) := by
  have hhalf : ∀ {a b : Int}, b < a → (a - b).tdiv 2 = cutOff a b := by
    intro a b h
    rw [cutOff, if_pos h, Int.tdiv_eq_ediv_of_nonneg (by omega)]
  rw [cutAxis]
  rcases Int.lt_trichotomy res len with h | h | h
  · rw [if_pos h, hhalf h, cutOff_of_le h.le]
  · rw [if_neg (by omega), if_neg (by omega), cutOff_of_le h.le, cutOff_of_le h.ge]
  · rw [if_neg (by omega), if_pos h, hhalf h, cutOff_of_le h.le]

theorem windowCut_eq (s : Sizes) (fourcc : Fourcc) (planar onlyY : Bool) :
    windowCut (s.display fourcc planar onlyY) s.screen =
      (s.cutDisplay fourcc planar onlyY, s.cutScreen) := by
  simp only [windowCut, Sizes.display, Sizes.screen, cutAxis_eq, Sizes.cutDisplay,
    Sizes.cutScreen]

-- ============================================================================
-- One turn
-- ============================================================================

namespace Sizes

section Turn

variable {s : Sizes} {fourcc : Fourcc} {line fbLine : Int}

theorem inside_int {v : Int} (hlow : 0 ≤ v) (hhigh : v ≤ intMax) : s.Inside fourcc (.int v) :=
  ⟨by omega, hhigh⟩

/-- A sample that starts `m` bytes behind the start of its row. -/
theorem inside_sample {plane : Plane} {off m size : Int} (hline : 0 ≤ line ∧ line < s.height)
    (hoff : off = s.planeStart fourcc plane + line * s.rowBytes fourcc plane + m)
    (hlow : 0 ≤ m) (hhigh : m + size ≤ s.rowBytes fourcc plane) :
    s.Inside fourcc (.sample plane line off size) := by
  refine ⟨hline, ?_, ?_⟩
  · omega
  · rw [Int.add_mul, Int.one_mul]
    omega

theorem inside_setYuvPixel {col : Int} {y u v : UInt8} :
    s.Inside fourcc (setYuvPixel fbLine col y u v) ↔
      (0 ≤ fbLine ∧ fbLine < s.yres) ∧ 0 ≤ col ∧ col < s.xres := Iff.rfl

/-- A sample of a packed frame, `m` bytes behind the start of its row. -/
theorem inside_packed {off m size : Int} (hline : 0 ≤ line ∧ line < s.height)
    (hoff : off = line * s.width * bytesPerPixel fourcc + m) (hlow : 0 ≤ m)
    (hhigh : m + size ≤ s.width * bytesPerPixel fourcc) :
    s.Inside fourcc (.sample .packed line off size) := by
  refine inside_sample hline ?_ hlow hhigh
  rw [hoff, planeStart, rowBytes, Int.zero_add, Int.mul_assoc]

/-- Two neighbouring bytes of a plane. -/
theorem inside_pair {plane : Plane} {off m : Int} (hline : 0 ≤ line ∧ line < s.height)
    (hoff : off = s.planeStart fourcc plane + line * s.rowBytes fourcc plane + m)
    (hlow : 0 ≤ m) (hhigh : m + 1 < s.rowBytes fourcc plane) :
    s.Inside fourcc (.sample plane line off 1) ∧
      s.Inside fourcc (.sample plane line (off + 1) 1) := by
  refine ⟨?_, ?_⟩
  · exact inside_sample hline hoff hlow (by omega)
  · apply inside_sample (m := m + 1) hline
    · rw [hoff, Int.add_assoc]
    · omega
    · omega

/-- Half of a row is a row of halves. -/
theorem tdiv_row (line : Int) : (line * s.width).tdiv 2 = line * (s.width / 2) := by
  obtain ⟨half, hhalf⟩ := s.width_even
  rw [hhalf, Int.mul_ediv_cancel_left _ (by decide), Int.mul_left_comm,
    Int.mul_tdiv_cancel_left _ (by decide)]

/-- The pointers of the planar formats stand at the starts of the planes. -/
theorem planes_eq (hyuv : fourcc ≠ .rgb888) (planar onlyY : Bool) :
    planes (s.cutDisplay fourcc planar onlyY) =
      { y := s.planeStart fourcc .y, cb := s.planeStart fourcc .cb,
        cr := s.planeStart fourcc .cr } := by
  cases fourcc with
  | rgb888 => exact absurd rfl hyuv
  | yCbCr422 =>
      simp only [planes, cutDisplay, display, planeStart, rowBytes, if_pos]
      rw [Int.mul_comm s.width s.height, tdiv_row]
  | yCbCr444 =>
      simp only [planes, cutDisplay, display, planeStart, rowBytes, reduceCtorEq, if_false]
      rw [Int.mul_comm s.width s.height]

variable (conv : Convert) (frame : Int → UInt8)

/-- A turn of the RGB888 loop that both the frame and the screen have room for. -/
theorem rgbTurn_inside (hline : 0 ≤ line ∧ line < s.height)
    (hfb : 0 ≤ fbLine ∧ fbLine < s.yres) {k : Nat} (hw : (k : Int) < s.width)
    (hx : (k : Int) < s.xres) :
    ∀ e ∈ rgbTurn conv frame line fbLine (cutOff s.xres s.width + k)
      (line * s.width * 3 + cutOff s.width s.xres * 3 + 3 * k), s.Inside .rgb888 e := by
  have hfrom := cutOff_nonneg s.width s.xres
  have hto := cutOff_nonneg s.xres s.width
  have hcol := cutOff_add_lt hw hx
  have hfbCol := cutOff_add_lt hx hw
  rw [rgbTurn, List.forall_mem_cons, List.forall_mem_singleton]
  refine ⟨?_, ?_⟩
  · apply inside_packed hline (Int.add_assoc _ _ _)
    · omega
    · rw [bytesPerPixel]
      omega
  · exact ⟨hfb, by omega, hfbCol⟩

/-- The reads of a turn of the YUV loop that both the frame and the screen have room for. -/
theorem yuvSamples_inside (hyuv : fourcc ≠ .rgb888) {planar : Bool} (onlyY : Bool)
    (hline : 0 ≤ line ∧ line < s.height) (hfit : planar = true → line * s.width ≤ intMax)
    {k : Nat} (hw : 2 * (k : Int) + 1 < s.width) (hx : 2 * (k : Int) + 1 < s.xres) :
    ∀ e ∈ (yuvSamples conv frame (s.cutDisplay fourcc planar onlyY) k line
      (cutOff s.width s.xres + 2 * k)).1, s.Inside fourcc e := by
  have hfrom := cutOff_nonneg s.width s.xres
  have hcol := cutOff_add_lt hw hx
  unfold yuvSamples
  rw [planes_eq hyuv]
  cases planar with
  | false =>
      cases fourcc with
      | rgb888 => exact absurd rfl hyuv
      | yCbCr422 =>
          simp only [cutDisplay, display, List.forall_mem_singleton]
          apply inside_packed hline (Int.add_assoc _ _ _)
          · omega
          · rw [bytesPerPixel]
            omega
      | yCbCr444 =>
          simp only [cutDisplay, display]
          rw [List.forall_mem_cons, List.forall_mem_singleton]
          refine ⟨?_, ?_⟩
          · apply inside_packed hline (Int.add_assoc _ _ _)
            · omega
            · rw [bytesPerPixel]
              omega
          · rw [Int.add_assoc, Int.add_assoc]
            apply inside_packed hline rfl
            · omega
            · rw [bytesPerPixel]
              omega
  | true =>
      have hint : s.Inside fourcc (.int (line * s.width)) :=
        inside_int (Int.mul_nonneg hline.1 s.width_range.1) (hfit rfl)
      have hpair : ∀ plane : Plane, s.rowBytes fourcc plane = s.width →
          s.Inside fourcc (.sample plane line
            (s.planeStart fourcc plane + (line * s.width + (cutOff s.width s.xres + 2 * k))) 1) ∧
          s.Inside fourcc (.sample plane line
            (s.planeStart fourcc plane + (line * s.width + (cutOff s.width s.xres + 2 * k)) + 1)
            1) := by
        intro plane hbytes
        apply inside_pair (m := cutOff s.width s.xres + 2 * k) hline
        · rw [hbytes, Int.add_assoc]
        · omega
        · omega
      have hy := hpair .y rfl
      cases fourcc with
      | rgb888 => exact absurd rfl hyuv
      | yCbCr422 =>
          have hchroma : ∀ plane : Plane, s.rowBytes .yCbCr422 plane = s.width / 2 →
              s.Inside .yCbCr422 (.sample plane line (s.planeStart .yCbCr422 plane +
                ((line * s.width).tdiv 2 + (cutOff s.width s.xres + 2 * k).tdiv 2)) 1) := by
            intro plane hbytes
            apply inside_sample (m := (cutOff s.width s.xres + 2 * k) / 2) hline
            · rw [hbytes, tdiv_row, Int.tdiv_eq_ediv_of_nonneg (by omega), Int.add_assoc]
            · omega
            · rw [hbytes]
              omega
          simp only [cutDisplay, display, List.forall_mem_cons]
          exact ⟨hint, hy.1, hy.2, hchroma .cb rfl, hchroma .cr rfl, fun e he => (by cases he)⟩
      | yCbCr444 =>
          have hcb := hpair .cb rfl
          have hcr := hpair .cr rfl
          simp only [cutDisplay, display, List.forall_mem_cons]
          exact ⟨hint, hy.1, hy.2, hcb.1, hcb.2, hcr.1, hcr.2, fun e he => (by cases he)⟩

/-- A turn of the YUV loop that both the frame and the screen have room for. -/
theorem yuvTurn_inside (hyuv : fourcc ≠ .rgb888) {planar : Bool} (onlyY : Bool)
    (hline : 0 ≤ line ∧ line < s.height) (hfb : 0 ≤ fbLine ∧ fbLine < s.yres)
    (hfit : planar = true → line * s.width ≤ intMax)
    {k : Nat} (hw : 2 * (k : Int) + 1 < s.width) (hx : 2 * (k : Int) + 1 < s.xres) :
    ∀ e ∈ yuvTurn conv frame (s.cutDisplay fourcc planar onlyY) k line fbLine
      (cutOff s.width s.xres + 2 * k) (cutOff s.xres s.width + 2 * k), s.Inside fourcc e := by
  have hto := cutOff_nonneg s.xres s.width
  have hfbCol := cutOff_add_lt hx hw
  have hxres := s.xres_range
  rw [yuvTurn, List.forall_mem_append]
  refine ⟨yuvSamples_inside conv frame hyuv onlyY hline hfit hw hx, ?_⟩
  rw [List.forall_mem_cons, List.forall_mem_cons, List.forall_mem_singleton,
    inside_setYuvPixel, inside_setYuvPixel]
  exact ⟨⟨hfb, by omega, by omega⟩, inside_int (by omega) (by omega),
    ⟨hfb, by omega, by omega⟩⟩

end Turn

-- ============================================================================
-- The two loops
-- ============================================================================

/-- The bounds of the column loop are `int`s. -/
def ColBoundsFit (s : Sizes) : Prop :=
  cutOff s.width s.xres + s.width ≤ intMax ∧
    (0 < s.width → cutOff s.yres s.height + s.xres ≤ intMax)

/-- The bounds of the line loop are `int`s. -/
def LineBoundsFit (s : Sizes) : Prop :=
  cutOff s.height s.yres + s.height ≤ intMax ∧
    (0 < s.height → cutOff s.yres s.height + s.yres ≤ intMax)

/-- The address of a line in a packed frame is computed in `int`s. -/
def AddressFits (s : Sizes) (fourcc : Fourcc) (line : Int) : Prop :=
  line * s.width * bytesPerPixel fourcc ≤ intMax ∧
    cutOff s.width s.xres * bytesPerPixel fourcc ≤ intMax

/-- The last line of the frame that is displayed. -/
def lastLine (s : Sizes) : Int := cutOff s.height s.yres + min s.height s.yres - 1

section Loops

variable {s : Sizes} {fourcc : Fourcc} {planar onlyY : Bool}

/-- A column loop whose turns stay inside where frame and screen have room for them, and
    only where their first pixel is on the screen. -/
theorem forCols_inside_iff {step : Int} (hstep : step = 1 ∨ step = 2)
    {body : Nat → Int → Int → List Event}
    (hin : ∀ k : Nat, step * k + (step - 1) < s.width → step * k + (step - 1) < s.xres →
      ∀ e ∈ body k (cutOff s.width s.xres + step * k) (cutOff s.xres s.width + step * k),
        s.Inside fourcc e)
    (hpixel : ∀ k col fbCol, (∀ e ∈ body k col fbCol, s.Inside fourcc e) → fbCol < s.xres) :
    (∀ e ∈ forCols step (s.cutDisplay fourcc planar onlyY) s.cutScreen body,
      s.Inside fourcc e) ↔
      s.ColBoundsFit ∧ ¬ (s.xres < s.width ∧ 0 < cutOff s.yres s.height) := by
  have hwidth := s.width_range
  have hxres := s.xres_range
  have hweven := s.width_even
  have hxeven := s.xres_even
  have hfrom := cutOff_cases s.width s.xres
  have hto := cutOff_cases s.xres s.width
  have hlines := cutOff_nonneg s.yres s.height
  rw [forCols, all_forBoth_iff (by omega)]
  simp only [cutDisplay, cutScreen, display, screen, ColBoundsFit]
  refine ⟨?_, ?_⟩
  · rintro ⟨⟨-, hbound⟩, hbound', hturns⟩
    refine ⟨⟨hbound, fun hpos => (hbound' (by omega)).2⟩, ?_⟩
    -- the turn behind the last column of the screen is made
    rintro ⟨hwide, hfree⟩
    obtain ⟨k, hk⟩ : ∃ k : Nat, step * (k : Int) = s.xres := by
      rcases hstep with rfl | rfl
      · exact ⟨s.xres.toNat, by omega⟩
      · exact ⟨(s.xres / 2).toNat, by omega⟩
    have hturn := hturns k (by omega) (by omega)
    have hcol := hpixel k _ _ hturn.1
    omega
  · rintro ⟨⟨hbound, hbound'⟩, hclip⟩
    refine ⟨⟨by omega, hbound⟩, fun hpos => ⟨by omega, hbound' (by omega)⟩, ?_⟩
    intro k hw hx
    have hnonneg : 0 ≤ step * (k : Int) := by
      rcases hstep with rfl | rfl <;> omega
    have hlast : step * (k : Int) + (step - 1) < s.width ∧
        step * (k : Int) + (step - 1) < s.xres := by
      rcases hstep with rfl | rfl <;> omega
    refine ⟨hin k hlast.1 hlast.2, ⟨by omega, by omega⟩, ⟨by omega, by omega⟩⟩

theorem rowInts_inside_iff {line : Int} (hline : 0 ≤ line) :
    (∀ e ∈ rowInts (s.cutDisplay fourcc planar onlyY) line (bytesPerPixel fourcc),
      s.Inside fourcc e) ↔ s.AddressFits fourcc line := by
  have hrow : 0 ≤ line * s.width := Int.mul_nonneg hline s.width_range.1
  have hfrom := cutOff_nonneg s.width s.xres
  rw [rowInts, List.forall_mem_cons, List.forall_mem_cons, List.forall_mem_singleton, AddressFits]
  simp only [cutDisplay, display, Inside]
  cases fourcc <;> simp only [bytesPerPixel] <;> omega

/-- A line loop whose lines stay inside up to the one where `Fits` ends. -/
theorem forLines_inside_iff {body : Int → Int → List Event} {Fits : Int → Prop}
    (hbody : ∀ line fbLine, 0 ≤ line ∧ line < s.height → 0 ≤ fbLine ∧ fbLine < s.yres →
      ((∀ e ∈ body line fbLine, s.Inside fourcc e) ↔ Fits line))
    (hless : ∀ line line', 0 ≤ line → line ≤ line' → Fits line' → Fits line) :
    (∀ e ∈ forLines (s.cutDisplay fourcc planar onlyY) s.cutScreen body, s.Inside fourcc e) ↔
      s.LineBoundsFit ∧ (0 < s.height → 0 < s.yres → Fits s.lastLine) := by
  have hheight := s.height_range
  have hyres := s.yres_range
  have hfrom := cutOff_cases s.height s.yres
  have hto := cutOff_cases s.yres s.height
  rw [forLines, all_forBoth_iff (by decide)]
  simp only [cutDisplay, cutScreen, display, screen, LineBoundsFit, Int.one_mul]
  refine ⟨?_, ?_⟩
  · rintro ⟨⟨-, hbound⟩, hbound', hturns⟩
    refine ⟨⟨hbound, fun hpos => (hbound' (by omega)).2⟩, ?_⟩
    intro hh hy
    obtain ⟨k, hk⟩ : ∃ k : Nat, (k : Int) = min s.height s.yres - 1 :=
      ⟨(min s.height s.yres - 1).toNat, by omega⟩
    have hlast : cutOff s.height s.yres + k = s.lastLine := by
      rw [lastLine]
      omega
    have hturn := (hturns k (by omega) (by omega)).1
    rw [hlast] at hturn
    exact (hbody _ _ ⟨by omega, by omega⟩ ⟨by omega, by omega⟩).mp hturn
  · rintro ⟨⟨hbound, hbound'⟩, hfits⟩
    refine ⟨⟨by omega, hbound⟩, fun hpos => ⟨by omega, hbound' (by omega)⟩, ?_⟩
    intro k hh hy
    refine ⟨?_, ⟨by omega, by omega⟩, ⟨by omega, by omega⟩⟩
    refine (hbody _ _ ⟨by omega, by omega⟩ ⟨by omega, by omega⟩).mpr ?_
    refine hless _ s.lastLine (by omega) ?_ (hfits (by omega) (by omega))
    rw [lastLine]
    omega

/-- The address of an earlier line is smaller. -/
theorem AddressFits.of_le {line line' : Int} (hle : line ≤ line')
    (h : s.AddressFits fourcc line') : s.AddressFits fourcc line := by
  have hbytes : 0 ≤ bytesPerPixel fourcc := by
    cases fourcc <;> decide
  refine ⟨Int.le_trans ?_ h.1, h.2⟩
  apply Int.mul_le_mul_of_nonneg_right _ hbytes
  exact Int.mul_le_mul_of_nonneg_right hle s.width_range.1

variable (conv : Convert) (frame : Int → UInt8) {line fbLine : Int}

theorem rgbLine_inside_iff (hline : 0 ≤ line ∧ line < s.height)
    (hfb : 0 ≤ fbLine ∧ fbLine < s.yres) :
    (∀ e ∈ rgbLine conv frame (s.cutDisplay .rgb888 planar onlyY) s.cutScreen line fbLine,
      s.Inside .rgb888 e) ↔
      s.AddressFits .rgb888 line ∧ s.ColBoundsFit ∧
        ¬ (s.xres < s.width ∧ 0 < cutOff s.yres s.height) := by
  rw [rgbLine, List.forall_mem_append]
  refine and_congr (rowInts_inside_iff hline.1) (forCols_inside_iff (.inl rfl) ?_ ?_)
  · intro k hw hx
    simp only [Int.one_mul, Int.sub_self, Int.add_zero] at hw hx ⊢
    exact rgbTurn_inside conv frame hline hfb hw hx
  · intro k col fbCol h
    exact (h _ (List.mem_cons_of_mem _ (List.mem_cons_self ..))).2.2

/-- The column loop of the YUV formats, where the planes are addressed in `int`s. -/
theorem yuvCols_inside_iff (hyuv : fourcc ≠ .rgb888) (hline : 0 ≤ line ∧ line < s.height)
    (hfb : 0 ≤ fbLine ∧ fbLine < s.yres) (hfit : planar = true → line * s.width ≤ intMax) :
    (∀ e ∈ forCols 2 (s.cutDisplay fourcc planar onlyY) s.cutScreen
      (fun turn col fbCol => yuvTurn conv frame (s.cutDisplay fourcc planar onlyY) turn line
        fbLine col fbCol), s.Inside fourcc e) ↔
      s.ColBoundsFit ∧ ¬ (s.xres < s.width ∧ 0 < cutOff s.yres s.height) := by
  apply forCols_inside_iff (.inr rfl)
  · intro k hw hx
    exact yuvTurn_inside conv frame hyuv onlyY hline hfb hfit hw hx
  · intro k col fbCol h
    rw [yuvTurn, List.forall_mem_append] at h
    exact (h.2 _ (List.mem_cons_self ..)).2.2

theorem yuvLine_packed_inside_iff (hyuv : fourcc ≠ .rgb888)
    (hline : 0 ≤ line ∧ line < s.height) (hfb : 0 ≤ fbLine ∧ fbLine < s.yres) :
    (∀ e ∈ yuvLine conv frame (s.cutDisplay fourcc false onlyY) s.cutScreen line fbLine,
      s.Inside fourcc e) ↔
      s.AddressFits fourcc line ∧ s.ColBoundsFit ∧
        ¬ (s.xres < s.width ∧ 0 < cutOff s.yres s.height) := by
  have hints : (match (s.cutDisplay fourcc false onlyY).planar,
      (s.cutDisplay fourcc false onlyY).fourcc with
      | false, .yCbCr422 => rowInts (s.cutDisplay fourcc false onlyY) line 2
      | false, _ => rowInts (s.cutDisplay fourcc false onlyY) line 3
      | true, _ => []) =
        rowInts (s.cutDisplay fourcc false onlyY) line (bytesPerPixel fourcc) := by
    cases fourcc <;> rfl
  rw [yuvLine, hints, List.forall_mem_append]
  exact and_congr (rowInts_inside_iff hline.1)
    (yuvCols_inside_iff conv frame hyuv hline hfb (fun h => (by cases h)))

theorem yuvLine_planar_inside_iff (hyuv : fourcc ≠ .rgb888)
    (himg : s.width * s.height ≤ intMax) (hline : 0 ≤ line ∧ line < s.height)
    (hfb : 0 ≤ fbLine ∧ fbLine < s.yres) :
    (∀ e ∈ yuvLine conv frame (s.cutDisplay fourcc true onlyY) s.cutScreen line fbLine,
      s.Inside fourcc e) ↔
      s.ColBoundsFit ∧ ¬ (s.xres < s.width ∧ 0 < cutOff s.yres s.height) := by
  apply yuvCols_inside_iff conv frame hyuv hline hfb
  intro _
  calc line * s.width ≤ s.height * s.width :=
        Int.mul_le_mul_of_nonneg_right hline.2.le s.width_range.1
    _ = s.width * s.height := Int.mul_comm _ _
    _ ≤ intMax := himg

end Loops

-- ============================================================================
-- The whole function
-- ============================================================================

/-- The frame is addressed by planes. -/
def InPlanes (fourcc : Fourcc) (planar : Bool) : Prop := fourcc ≠ .rgb888 ∧ planar = true

/-- No `int` expression of a run overflows.  What is computed for a line counts only where
    a line is displayed. -/
def IntsFit (s : Sizes) (fourcc : Fourcc) (planar : Bool) : Prop :=
  (InPlanes fourcc planar → s.width * s.height ≤ intMax) ∧ s.LineBoundsFit ∧
    (0 < s.height → 0 < s.yres →
      (¬ InPlanes fourcc planar → s.AddressFits fourcc s.lastLine) ∧ s.ColBoundsFit)

/-- The frame is not both wider than the screen and, by two lines or more, lower. -/
def Clipped (s : Sizes) : Prop :=
  ¬ (s.xres < s.width ∧ 0 < s.height ∧ s.height + 2 ≤ s.yres)

/-- The slip shows where a line is displayed at all. -/
theorem displayed_iff {s : Sizes} {Fits : Prop} :
    (0 < s.height → 0 < s.yres →
      Fits ∧ ¬ (s.xres < s.width ∧ 0 < cutOff s.yres s.height)) ↔
      s.Clipped ∧ (0 < s.height → 0 < s.yres → Fits) := by
  rw [Clipped, cutOff_pos_iff]
  refine ⟨?_, ?_⟩
  · intro h
    refine ⟨?_, fun hh hy => (h hh hy).1⟩
    rintro ⟨hwide, hh, hfree⟩
    exact (h hh (by omega)).2 ⟨hwide, hfree⟩
  · rintro ⟨hclip, hfits⟩ hh hy
    exact ⟨hfits hh hy, fun h => hclip ⟨h.1, hh, h.2⟩⟩

section Whole

variable {s : Sizes} {fourcc : Fourcc} {planar onlyY : Bool} {body : Int → Int → List Event}

/-- RGB888 and the packed YUV formats: every line has its address computed. -/
theorem packed_inside_iff (hpacked : ¬ InPlanes fourcc planar)
    (hbody : ∀ line fbLine, 0 ≤ line ∧ line < s.height → 0 ≤ fbLine ∧ fbLine < s.yres →
      ((∀ e ∈ body line fbLine, s.Inside fourcc e) ↔
        s.AddressFits fourcc line ∧ s.ColBoundsFit ∧
          ¬ (s.xres < s.width ∧ 0 < cutOff s.yres s.height))) :
    (∀ e ∈ forLines (s.cutDisplay fourcc planar onlyY) s.cutScreen body, s.Inside fourcc e) ↔
      s.Clipped ∧ s.IntsFit fourcc planar := by
  rw [forLines_inside_iff hbody (fun line line' _ hle h => ⟨h.1.of_le hle, h.2⟩)]
  simp only [← and_assoc]
  rw [displayed_iff, IntsFit]
  refine ⟨?_, ?_⟩
  · rintro ⟨hlines, hclip, hfits⟩
    refine ⟨hclip, fun h => absurd h hpacked, hlines, ?_⟩
    intro hh hy
    exact ⟨fun _ => (hfits hh hy).1, (hfits hh hy).2⟩
  · rintro ⟨hclip, -, hlines, hfits⟩
    refine ⟨hlines, hclip, ?_⟩
    intro hh hy
    exact ⟨(hfits hh hy).1 hpacked, (hfits hh hy).2⟩

/-- The planar formats: the size of the frame is computed first. -/
theorem planar_inside_iff (hplanar : InPlanes fourcc planar)
    (hbody : s.width * s.height ≤ intMax →
      ∀ line fbLine, 0 ≤ line ∧ line < s.height → 0 ≤ fbLine ∧ fbLine < s.yres →
        ((∀ e ∈ body line fbLine, s.Inside fourcc e) ↔
          s.ColBoundsFit ∧ ¬ (s.xres < s.width ∧ 0 < cutOff s.yres s.height))) :
    (∀ e ∈ [.int (s.width * s.height)] ++
      forLines (s.cutDisplay fourcc planar onlyY) s.cutScreen body, s.Inside fourcc e) ↔
      s.Clipped ∧ s.IntsFit fourcc planar := by
  have hnonneg : 0 ≤ s.width * s.height := Int.mul_nonneg s.width_range.1 s.height_range.1
  rw [List.forall_mem_append, List.forall_mem_singleton, IntsFit]
  refine ⟨?_, ?_⟩
  · rintro ⟨himg, hrun⟩
    rw [forLines_inside_iff (hbody himg.2) (fun _ _ _ _ h => h), displayed_iff] at hrun
    obtain ⟨hlines, hclip, hfits⟩ := hrun
    refine ⟨hclip, fun _ => himg.2, hlines, ?_⟩
    intro hh hy
    exact ⟨fun h => absurd hplanar h, hfits hh hy⟩
  · rintro ⟨hclip, himg, hlines, hfits⟩
    refine ⟨inside_int hnonneg (himg hplanar), ?_⟩
    rw [forLines_inside_iff (hbody (himg hplanar)) (fun _ _ _ _ h => h), displayed_iff]
    exact ⟨hlines, hclip, fun hh hy => (hfits hh hy).2⟩

end Whole

end Sizes

/-- **The frame is clipped to the screen exactly where it is not both wider than the screen
    and lower by two lines or more, and no `int` overflows.** -/
theorem displayDirectToFb_inside_iff (s : Sizes) (conv : Convert) (frame : Int → UInt8)
    (fourcc : Fourcc) (planar onlyY : Bool) :
    (∀ e ∈ displayDirectToFb conv frame (s.display fourcc planar onlyY) s.screen,
      s.Inside fourcc e) ↔ s.Clipped ∧ s.IntsFit fourcc planar := by
  rw [displayDirectToFb, windowCut_eq]
  by_cases hrgb : fourcc = .rgb888
  · subst hrgb
    show (∀ e ∈ forLines _ _ _, _) ↔ _
    exact Sizes.packed_inside_iff (fun h => h.1 rfl)
      fun line fbLine hline hfb => Sizes.rgbLine_inside_iff conv frame hline hfb
  · show (∀ e ∈ (if fourcc = .rgb888 then _ else _), _) ↔ _
    rw [if_neg hrgb]
    cases planar with
    | false =>
        show (∀ e ∈ [] ++ forLines _ _ _, _) ↔ _
        rw [List.nil_append]
        exact Sizes.packed_inside_iff (fun h => (by cases h.2))
          fun line fbLine hline hfb => Sizes.yuvLine_packed_inside_iff conv frame hrgb hline hfb
    | true =>
        exact Sizes.planar_inside_iff ⟨hrgb, rfl⟩ fun himg line fbLine hline hfb =>
          Sizes.yuvLine_planar_inside_iff conv frame hrgb himg hline hfb

/-- A frame of 4 × 2 pixels on a screen of 2 × 4, with a byte order that is kept: the third
    column of the screen is set. -/
theorem displayDirectToFb_outside :
    ∃ s : Sizes, s.width = 4 ∧ s.height = 2 ∧ s.xres = 2 ∧ s.yres = 4 ∧
      Event.pixel 1 2 0 0 0 ∈
        displayDirectToFb ⟨id, id, id⟩ (fun _ => 0) (s.display .rgb888 false false) s.screen ∧
      ¬ s.Inside .rgb888 (.pixel 1 2 0 0 0) :=
  ⟨⟨4, 2, 2, 4, by decide, by decide, by decide, by decide, by decide, by decide⟩,
    rfl, rfl, rfl, rfl, by decide, by unfold Sizes.Inside; decide⟩

end LinuxCodeDemos.Framebuffer

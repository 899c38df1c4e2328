/-
  LinuxCodeDemos.NailPrinter.Frame

  `read_frame` of `NailPrinterServer/camera.c`.

  The camera is asked for NV12: behind the Y plane stands one plane of pairs U, V.  `read_frame`
  passes addresses of a planar format, a U plane and a V plane of a quarter of the Y plane each, to
  `ConvertYUV2RGB`, and the picture into a buffer of 1 MiB.  So the colours are right exactly for
  frames that fit and on which the two readings of the chroma bytes give the same colours; where
  red and blue are not clamped these are the frames on which they give the same bytes
  (`Frame.decoded_iff`).
-/

import LinuxCodeDemos.NailPrinter.Colours

namespace LinuxCodeDemos.NailPrinter

open Lib

-- ============================================================================
-- Definitions
-- ============================================================================

/-- `sizeof(rgb_buffer)`. -/
def rgbBufferSize : Nat := 1 * 1024 * 1024

/-- `read_frame`: what `rgb_buffer` holds when it is encoded. -/
def readFrame (t : Tables) (buffer : List UInt8) (width height : Nat) :
    Except Fault (List UInt8) := do
  let y : Pointer := ⟨buffer, 0⟩
  let size ← checkInt (width * height)
  let u := y.add size.toNat
  let v := u.add (size / 4).toNat
  t.convertYUV2RGB y u v (List.replicate rgbBufferSize 0) width height

/-- An NV12 frame: a Y plane, and half as many rows of pairs U, V. -/
structure Frame where
  width : Nat
  height : Nat
  bytes : List UInt8
  even_width : width % 2 = 0
  even_height : height % 2 = 0
  width_le : width ≤ intMax
  height_le : height ≤ intMax
  length : height * width + height / 2 * width ≤ bytes.length

namespace Frame

variable (f : Frame)

def y (r c : Nat) : UInt8 := f.bytes.getD (cellAt f.width r c) 0

/-- Byte `k` behind the Y plane. -/
def chroma (k : Nat) : UInt8 := f.bytes.getD (f.height * f.width + k) 0

/-- U of the pair in row `R`, column `C`. -/
def u (R C : Nat) : UInt8 := f.chroma (cellAt f.width R (2 * C))

/-- V of the pair in row `R`, column `C`. -/
def v (R C : Nat) : UInt8 := f.chroma (cellAt f.width R (2 * C + 1))

/-- The bytes that stand in the places of a planar format. -/
def planarU (R C : Nat) : UInt8 := f.chroma (cellAt (f.width / 2) R C)

def planarV (R C : Nat) : UInt8 :=
  f.chroma (f.width * f.height / 4 + cellAt (f.width / 2) R C)

/-- `read_frame` makes the picture of the frame. -/
def Decoded : Prop :=
  ∃ t out, initConvertTable .zero = .ok t ∧ readFrame t f.bytes f.width f.height = .ok out ∧
    ∀ r < f.height, ∀ c < f.width,
      HasPixel out f.width r c (rgb (f.y r c) (f.u (r / 2) (c / 2)) (f.v (r / 2) (c / 2)))

/-- `3 * width` is an `int`, and the picture fits `rgb_buffer`. -/
def Fits : Prop := 3 * f.width ≤ intMax ∧ 3 * (f.height * f.width) ≤ rgbBufferSize

/-- Both readings of the chroma bytes give every pixel the same colour. -/
def SameColours : Prop :=
  ∀ r < f.height, ∀ c < f.width,
    rgb (f.y r c) (f.planarU (r / 2) (c / 2)) (f.planarV (r / 2) (c / 2)) =
      rgb (f.y r c) (f.u (r / 2) (c / 2)) (f.v (r / 2) (c / 2))

/-- Both readings of the chroma bytes give the same bytes. -/
def SameBytes : Prop :=
  ∀ R < f.height / 2, ∀ C < f.width / 2, f.planarU R C = f.u R C ∧ f.planarV R C = f.v R C

end Frame

/-- Red and blue are inside `0 .. 255` before they are clamped. -/
def Unclamped (y u v : UInt8) : Prop :=
  let red := (76309 * ((y.toNat : Int) - 16) + 104597 * ((v.toNat : Int) - 128)) >>> (16 : Nat)
  let blue := (76309 * ((y.toNat : Int) - 16) + 132201 * ((u.toNat : Int) - 128)) >>> (16 : Nat)
  (0 ≤ red ∧ red ≤ 255) ∧ 0 ≤ blue ∧ blue ≤ 255

/-- This holds for every pixel, whichever way its chroma bytes are read. -/
def Frame.Unclamped (f : Frame) : Prop :=
  ∀ r < f.height, ∀ c < f.width,
    NailPrinter.Unclamped (f.y r c) (f.u (r / 2) (c / 2)) (f.v (r / 2) (c / 2)) ∧
      NailPrinter.Unclamped (f.y r c) (f.planarU (r / 2) (c / 2)) (f.planarV (r / 2) (c / 2))

-- ============================================================================
-- The buffer keeps its length
-- ============================================================================

section Lengths

variable {t : Tables}

theorem putPixel_length (dst : List UInt8) (d : Nat) (y c1 c2 c3 c4 : Int) :
    Ends (fun dst' => dst'.length = dst.length) (fun _ => True)
      (t.putPixel dst d y c1 c2 c3 c4) := by
  have hstore : ∀ (b : List UInt8) (off : Nat) (src : List UInt8), b.length = dst.length →
      Ends (fun b' => b'.length = dst.length) (fun _ => True) (store b off src) :=
    fun b off src hb => ends_of_forall fun b' hb' => (length_of_store hb').trans hb
  rw [Tables.putPixel]
  apply Ends.bind_any
  intro _
  apply Ends.bind_any
  intro red
  apply (hstore dst d [red] rfl).bind
  intro dst₁ h₁
  apply Ends.bind_any
  intro _
  apply Ends.bind_any
  intro _
  apply Ends.bind_any
  intro green
  apply (hstore dst₁ (d + 1) [green] h₁).bind
  intro dst₂ h₂
  apply Ends.bind_any
  intro _
  apply Ends.bind_any
  intro blue
  exact hstore dst₂ (d + 2) [blue] h₂

/-- A turn that does not fault leaves the length alone. -/
theorem turn_length {n : Nat} (w : Walk) (hw : w.dst.length = n) :
    Ends (fun w' => w'.dst.length = n) (fun _ => True) (t.turn w) := by
  have hput : ∀ (dst : List UInt8) (d : Nat) (y c1 c2 c3 c4 : Int), dst.length = n →
      Ends (fun dst' => dst'.length = n) (fun _ => True) (t.putPixel dst d y c1 c2 c3 c4) :=
    fun dst d y c1 c2 c3 c4 hdst =>
      (putPixel_length dst d y c1 c2 c3 c4).mono (fun _ h => h.trans hdst) fun _ h => h
  rw [Tables.turn]
  -- The two chroma bytes and the four values of the tables, then a Y value before every pixel.
  iterate 10
    apply Ends.bind_any
    intro _
  iterate 3
    apply Ends.bind_any
    intro _
  apply (hput _ _ _ _ _ _ _ hw).bind
  intro dst₁ h₁
  iterate 3
    apply Ends.bind_any
    intro _
  apply (hput _ _ _ _ _ _ _ h₁).bind
  intro dst₂ h₂
  iterate 3
    apply Ends.bind_any
    intro _
  apply (hput _ _ _ _ _ _ _ h₂).bind
  intro dst₃ h₃
  iterate 3
    apply Ends.bind_any
    intro _
  apply (hput _ _ _ _ _ _ _ h₃).bind
  intro dst₄ h₄
  exact h₄

/-- `ConvertYUV2RGB` leaves the length of its output alone. -/
theorem convertYUV2RGB_length {src0 src1 src2 : Pointer} {dst out : List UInt8} {width height : Nat}
    (h : t.convertYUV2RGB src0 src1 src2 dst width height = .ok out) :
    out.length = dst.length := by
  have hrows : ∀ w : Walk, w.dst.length = dst.length →
      Ends (fun w' : Walk => w'.dst.length = dst.length) (fun _ => True) (t.rows width w) := by
    intro w hw
    rw [Tables.rows]
    apply (forBy_keeps (fun w hw => turn_length w hw) hw).bind
    intro w' hw'
    apply Ends.bind_any
    intro _
    exact hw'
  have hends : Ends (fun out => out.length = dst.length) (fun _ => True)
      (t.convertYUV2RGB src0 src1 src2 dst width height) := by
    rw [Tables.convertYUV2RGB]
    apply Ends.bind_any
    intro skip
    apply (forBy_keeps hrows rfl).bind
    intro w hw
    exact hw
  exact hends.of_ok h

end Lengths

-- ============================================================================
-- Colours and bytes
-- ============================================================================

section Clamping

variable {y u v u' v' : UInt8} {x x' : Int}

/-- Values of a byte are not clamped together. -/
theorem clampByte_inj (hx : 0 ≤ x ∧ x ≤ 255) (hx' : 0 ≤ x' ∧ x' ≤ 255)
    (h : clampByte x = clampByte x') : x = x' := by
  rw [clampByte, clampByte, min_eq_right hx.2, min_eq_right hx'.2, max_eq_right hx.1,
    max_eq_right hx'.1] at h
  have hnat := congrArg UInt8.toNat h
  rw [UInt8.toNat_ofNat', UInt8.toNat_ofNat', Nat.mod_eq_of_lt (by omega),
    Nat.mod_eq_of_lt (by omega)] at hnat
  omega

/-- Where nothing is clamped, red tells V and blue tells U. -/
theorem rgb_inj (hu : Unclamped y u v) (hu' : Unclamped y u' v') (h : rgb y u v = rgb y u' v') :
    u = u' ∧ v = v' := by
  simp only [rgb, List.cons.injEq] at h
  obtain ⟨hred, -, hblue, -⟩ := h
  have hred' := clampByte_inj hu.1 hu'.1 hred
  have hblue' := clampByte_inj hu.2 hu'.2 hblue
  simp only [Int.shiftRight_eq_div_pow] at hred' hblue'
  -- A step of V moves the sum by more than 2 ^ 16, and so does a step of U.
  refine ⟨?_, ?_⟩
  · apply UInt8.toNat_inj.mp
    omega
  · apply UInt8.toNat_inj.mp
    omega

theorem HasPixel.unique {out a b : List UInt8} {width r c : Nat} (ha : HasPixel out width r c a)
    (hb : HasPixel out width r c b) (hla : a.length = 3) (hlb : b.length = 3) : a = b := by
  apply List.ext_getElem?
  intro k
  by_cases hk : k < 3
  · rw [← ha k hk, hb k hk]
  · rw [List.getElem?_eq_none (by omega), List.getElem?_eq_none (by omega)]

end Clamping

-- ============================================================================
-- Frames
-- ============================================================================

namespace Frame

variable (f : Frame)

/-- The quarter of the Y plane. -/
theorem quarter : f.width * f.height / 4 = f.height / 2 * (f.width / 2) := by
  obtain ⟨W, hW⟩ : ∃ W, f.width = 2 * W := ⟨f.width / 2, by have := f.even_width; omega⟩
  obtain ⟨H, hH⟩ : ∃ H, f.height = 2 * H := ⟨f.height / 2, by have := f.even_height; omega⟩
  have hprod : f.width * f.height = 4 * (H * W) := by
    rw [hW, hH, Nat.mul_mul_mul_comm, Nat.mul_comm W]
  rw [hprod, hW, hH, Nat.mul_div_cancel_left _ (by omega), Nat.mul_div_cancel_left _ (by omega),
    Nat.mul_div_cancel_left _ (by omega)]

/-- The chroma plane has two bytes for every block of four pixels. -/
theorem chroma_size : f.height / 2 * f.width = 2 * (f.height / 2 * (f.width / 2)) := by
  have hw := f.even_width
  have hhalf : f.width = 2 * (f.width / 2) := by omega
  calc f.height / 2 * f.width = f.height / 2 * (2 * (f.width / 2)) := by rw [← hhalf]
    _ = 2 * (f.height / 2 * (f.width / 2)) := Nat.mul_left_comm ..

/-- The image that `read_frame` passes on. -/
def image : Image f.width f.height :=
  { y := ⟨f.bytes, 0⟩
    u := Pointer.add ⟨f.bytes, 0⟩ (f.width * f.height)
    v := (Pointer.add ⟨f.bytes, 0⟩ (f.width * f.height)).add (f.width * f.height / 4)
    y_fits := by
      have hlength := f.length
      show 0 + f.height * f.width ≤ f.bytes.length
      omega
    u_fits := by
      have hlength := f.length
      have hsize := f.chroma_size
      have hcomm := Nat.mul_comm f.height f.width
      show 0 + f.width * f.height + f.height / 2 * (f.width / 2) ≤ f.bytes.length
      omega
    v_fits := by
      have hlength := f.length
      have hsize := f.chroma_size
      have hcomm := Nat.mul_comm f.height f.width
      show 0 + f.width * f.height + f.width * f.height / 4 + f.height / 2 * (f.width / 2) ≤
        f.bytes.length
      rw [f.quarter]
      omega }

theorem pixel_image (r c : Nat) : f.image.pixel r c =
    rgb (f.y r c) (f.planarU (r / 2) (c / 2)) (f.planarV (r / 2) (c / 2)) := by
  have hy : f.image.y.plane f.width r c = f.y r c := by
    rw [Pointer.plane, Frame.y, image, Nat.zero_add]
  have hu : f.image.u.plane (f.width / 2) (r / 2) (c / 2) = f.planarU (r / 2) (c / 2) := by
    show f.bytes.getD (0 + f.width * f.height + cellAt (f.width / 2) (r / 2) (c / 2)) 0 = _
    rw [planarU, chroma, Nat.zero_add, Nat.mul_comm f.height]
  have hv : f.image.v.plane (f.width / 2) (r / 2) (c / 2) = f.planarV (r / 2) (c / 2) := by
    show f.bytes.getD (0 + f.width * f.height + f.width * f.height / 4 +
      cellAt (f.width / 2) (r / 2) (c / 2)) 0 = _
    rw [planarV, chroma, Nat.zero_add, Nat.mul_comm f.height, Nat.add_assoc]
  rw [Image.pixel, hy, hu, hv]

theorem readFrame_eq {t : Tables} (hint : f.width * f.height ≤ intMax) :
    readFrame t f.bytes f.width f.height =
      t.convertYUV2RGB f.image.y f.image.u f.image.v (List.replicate rgbBufferSize 0) f.width
        f.height := by
  have hsize : checkInt ((f.width : Int) * f.height) = .ok ((f.width * f.height : Nat) : Int) := by
    rw [← Int.natCast_mul]
    exact checkInt_of_le (by omega) (by omega)
  have hquarter : (((f.width * f.height : Nat) : Int) / 4).toNat = f.width * f.height / 4 := by
    omega
  simp only [readFrame, bind, Except.bind, hsize, Int.toNat_natCast, hquarter]
  rfl

/-- A frame that fits is decoded as a planar one. -/
theorem readFrame_planar {t : Tables} (ht : t.Ready) (hfits : f.Fits) :
    ∃ out, readFrame t f.bytes f.width f.height = .ok out ∧
      ∀ r < f.height, ∀ c < f.width, HasPixel out f.width r c
        (rgb (f.y r c) (f.planarU (r / 2) (c / 2)) (f.planarV (r / 2) (c / 2))) := by
  have hcomm := Nat.mul_comm f.height f.width
  have hsize : rgbBufferSize ≤ intMax := by decide
  obtain ⟨hwidth, hbuffer⟩ := hfits
  have hfit : 3 * (f.height * f.width) ≤ (List.replicate rgbBufferSize (0 : UInt8)).length := by
    rw [List.length_replicate]
    exact hbuffer
  obtain ⟨out, hrun, -, hpixels, -⟩ := convertYUV2RGB_painted ht f.even_width f.even_height hwidth
    f.height_le f.image hfit
  refine ⟨out, ?_, fun r hr c hc => ?_⟩
  · rw [f.readFrame_eq (by omega), hrun]
  · rw [← f.pixel_image]
    exact hpixels r hr c hc

/-- A frame that is decoded fits. -/
theorem fits_of_decoded (h : f.Decoded) : f.Fits := by
  obtain ⟨t, out, -, hrun, hpixels⟩ := h
  have hint : f.width * f.height ≤ intMax := by
    by_contra hbig
    have hsize : checkInt ((f.width : Int) * f.height) = .error .overflow := by
      apply if_neg
      rw [← Int.natCast_mul]
      omega
    simp only [readFrame, bind, Except.bind, hsize] at hrun
    cases hrun
  rw [f.readFrame_eq hint] at hrun
  have hlength := convertYUV2RGB_length hrun
  rw [List.length_replicate] at hlength
  refine ⟨?_, ?_⟩
  · by_contra hbig
    have hskip : checkInt (3 * (f.width : Int)) = .error .overflow := by
      apply if_neg
      omega
    simp only [Tables.convertYUV2RGB, bind, Except.bind, hskip] at hrun
    cases hrun
  · -- The last byte of the last pixel has been stored.
    rcases Nat.eq_zero_or_pos (f.height * f.width) with hzero | hpos
    · rw [hzero]
      exact Nat.zero_le _
    · have hh : 0 < f.height := Nat.pos_of_mul_pos_right hpos
      have hw : 0 < f.width := Nat.pos_of_mul_pos_left hpos
      have hlast := hpixels (f.height - 1) (by omega) (f.width - 1) (by omega) 2 (by omega)
      have hlt := (List.getElem?_eq_some_iff.mp hlast).1
      have hcell : cellAt f.width (f.height - 1) (f.width - 1) + 1 = f.height * f.width := by
        obtain ⟨H, hH⟩ : ∃ H, f.height = H + 1 := ⟨f.height - 1, by omega⟩
        rw [hH, cellAt, Nat.succ_mul, Nat.add_sub_cancel]
        omega
      omega

theorem decoded_iff_sameColours : f.Decoded ↔ f.Fits ∧ f.SameColours := by
  refine ⟨?_, ?_⟩
  · intro h
    have hfits := f.fits_of_decoded h
    refine ⟨hfits, ?_⟩
    obtain ⟨t, out, hinit, hrun, hpixels⟩ := h
    obtain ⟨t', hinit', ht'⟩ := initConvertTable_eq sized_zero
    obtain rfl : t = t' := Except.ok.inj (hinit.symm.trans hinit')
    obtain ⟨out', hrun', hplanar⟩ := f.readFrame_planar ht' hfits
    obtain rfl : out = out' := Except.ok.inj (hrun.symm.trans hrun')
    intro r hr c hc
    exact (hplanar r hr c hc).unique (hpixels r hr c hc) rfl rfl
  · rintro ⟨hfits, hsame⟩
    obtain ⟨t, hinit, ht⟩ := initConvertTable_eq sized_zero
    obtain ⟨out, hrun, hplanar⟩ := f.readFrame_planar ht hfits
    refine ⟨t, out, hinit, hrun, fun r hr c hc => ?_⟩
    rw [← hsame r hr c hc]
    exact hplanar r hr c hc

theorem sameColours_iff_sameBytes (hclamp : f.Unclamped) : f.SameColours ↔ f.SameBytes := by
  have hw := f.even_width
  have hh := f.even_height
  refine ⟨?_, ?_⟩
  · intro hsame R hR C hC
    have hr : 2 * R < f.height := by omega
    have hc : 2 * C < f.width := by omega
    have hpixel := hsame (2 * R) hr (2 * C) hc
    obtain ⟨hnv12, hplanar⟩ := hclamp (2 * R) hr (2 * C) hc
    have hhalf : ∀ n : Nat, 2 * n / 2 = n := fun n => Nat.mul_div_cancel_left n Nat.two_pos
    rw [hhalf, hhalf] at hpixel hnv12 hplanar
    exact rgb_inj hplanar hnv12 hpixel
  · intro hsame r hr c hc
    obtain ⟨hu, hv⟩ := hsame (r / 2) (by omega) (c / 2) (by omega)
    rw [hu, hv]

/-- A frame is decoded in its own format if and only if it fits the buffer and both readings of the
    chroma bytes give the same colours; if red and blue are not clamped, if and only if it fits and
    both readings give the same bytes. -/
theorem decoded_iff : (f.Decoded ↔ f.Fits ∧ f.SameColours) ∧
    (f.Unclamped → (f.Decoded ↔ f.Fits ∧ f.SameBytes)) := by
  refine ⟨f.decoded_iff_sameColours, fun hclamp => ?_⟩
  rw [f.decoded_iff_sameColours, f.sameColours_iff_sameBytes hclamp]

end Frame

/-- Red on the left and grey on the right. -/
def redFrame : Frame :=
  { width := 4, height := 2
    bytes := [126, 126, 126, 126, 126, 126, 126, 126, 128, 200, 128, 128]
    even_width := rfl, even_height := rfl, width_le := by decide, height_le := by decide
    length := Nat.le_refl 12 }

/-- The left half gets its V from the right half and turns grey. -/
theorem not_decoded_redFrame : ¬ redFrame.Decoded := by
  intro h
  have hsame := (redFrame.decoded_iff_sameColours.mp h).2 0 (by decide) 0 (by decide)
  revert hsame
  decide

end LinuxCodeDemos.NailPrinter

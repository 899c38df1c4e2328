/-
  LinuxCodeDemos.Bmp.Display

  The viewer on a framebuffer: the calls of `fb_setpixel` that `main` makes, on the memory that
  `fb_init` has mapped.

  What they are for is a screen of colours (`Colours`): each call paints one position.  On a screen
  of 480 times 272 pixels whose channels do not overlap and whose pixels are as wide as the word
  that is stored, the memory follows the colours call by call (`setPixel_shows`), so that after
  `main` every position of the picture reads as the colour drawn there and the others as black
  (`display_eq`).
-/

import LinuxCodeDemos.Bmp.Draw
import LinuxCodeDemos.Bmp.Framebuffer

namespace LinuxCodeDemos.Bmp

open Lib

-- ============================================================================
-- Calls
-- ============================================================================

/-- One call of `fb_setpixel`; `main` does not look at what it returns. -/
def setPixel (abi : Abi) (s : Screen) (fbmem : List UInt8) (call : SetPixel) :
    Except Fault (List UInt8) := do
  let (_, fbmem) ← fbSetpixel abi s fbmem 480 272 call.x call.y (UInt32.ofNat call.color)
  .ok fbmem

/-- `main` with the framebuffer: the memory afterwards, `none` if it never gets to draw. -/
def display (abi : Abi) (s : Screen) (file : List UInt8) (heap : Nat → UInt8)
    (fbmem : List UInt8) : Except Fault (Option (List UInt8)) := do
  match ← main file heap with
  | none => .ok none
  | some calls => do
      let fbmem ← runSteps (setPixel abi s) fbmem calls
      .ok (some fbmem)

-- ============================================================================
-- Colours
-- ============================================================================

/-- What is known of the colours on a screen. -/
def Colours : Type := Nat → Nat → Option Nat

/-- A call paints one position. -/
def Colours.paint (colours : Colours) (call : SetPixel) : Colours := fun x y =>
  if call.x = x ∧ call.y = y then some call.color else colours x y

/-- If all calls for a position have one colour, the position has it afterwards. -/
theorem foldl_paint {calls : List SetPixel} {x y color : Nat}
    (h : ∀ call ∈ calls, call.x = x → call.y = y → call.color = color) (colours : Colours) :
    calls.foldl Colours.paint colours x y =
      if ∃ call ∈ calls, call.x = x ∧ call.y = y then some color else colours x y := by
  induction calls generalizing colours with
  | nil => simp
  | cons call calls ih =>
      rw [List.foldl_cons, ih fun c hc => h c (List.mem_cons_of_mem _ hc), Colours.paint]
      by_cases hlater : ∃ c ∈ calls, c.x = x ∧ c.y = y
      · obtain ⟨c, hc, hpos⟩ := hlater
        rw [if_pos ⟨c, hc, hpos⟩, if_pos ⟨c, List.mem_cons_of_mem _ hc, hpos⟩]
      · rw [if_neg hlater]
        by_cases hhere : call.x = x ∧ call.y = y
        · rw [if_pos hhere, if_pos ⟨call, List.mem_cons_self .., hhere⟩,
            h call (List.mem_cons_self ..) hhere.1 hhere.2]
        · rw [if_neg hhere, if_neg]
          rintro ⟨c, hc, hpos⟩
          rcases List.mem_cons.mp hc with rfl | hc
          · exact hhere hpos
          · exact hlater ⟨c, hc, hpos⟩

-- ============================================================================
-- The memory and the colours
-- ============================================================================

/-- The screen that `main` draws on. -/
structure Screen.Viewer (abi : Abi) (s : Screen) : Prop where
  fbw : s.fbw = 480
  fbh : s.fbh = 272
  disjoint : s.colorField.Disjoint s.fbd
  dst : dstSize abi s = s.fbd / 8

/-- What `fb_readpixel` returns for a colour. -/
def Screen.packed (abi : Abi) (s : Screen) (color : Nat) : Nat :=
  toUnsigned abi.sizeofLong (s.colorField.color (UInt32.ofNat color))

/-- The memory shows the colours. -/
structure Displays (abi : Abi) (s : Screen) (fbmem : List UInt8) (colours : Colours) : Prop where
  length : fbmem.length = s.screensize
  reads : ∀ x < 480, ∀ y < 272, ∀ color, colours x y = some color →
    fbReadpixel abi s fbmem 480 272 x y = .ok (s.packed abi color)

section Displays

variable {abi : Abi} {s : Screen} {fbmem fbmem' : List UInt8} {colours : Colours} {x y : Nat}

theorem pixelByte_cellAt (s : Screen) (x y : Nat) :
    s.pixelByte x y = cellAt s.fbw y x * (s.fbd / 8) := by
  rw [Screen.pixelByte, cellAt, ← Int.natCast_mul, ← Int.natCast_add, Int.toNat_natCast]

/-- If the size of the screen is not truncated, all its pixels are mapped. -/
theorem shows_of_lt (hsize : s.fbw * s.fbh * s.fbd < 2 ^ 32) (hx : x < s.fbw) (hy : y < s.fbh) :
    s.Shows x y := by
  have hcell := cellAt_lt_of_lt hy hx
  have hbytes := Nat.mul_le_mul_right (s.fbd / 8) (Nat.succ_le_of_lt hcell)
  refine ⟨⟨by omega, by omega⟩, ⟨by omega, by omega⟩, ?_⟩
  rw [pixelByte_cellAt, Screen.screensize, Nat.mod_eq_of_lt hsize, Nat.mul_comm s.fbw]
  rw [Nat.succ_mul] at hbytes
  rcases s.depth with hd | hd | hd <;> rw [hd] at hbytes ⊢ <;> omega

/-- Different pixels have different bytes. -/
theorem pixelByte_disjoint {x' y' : Nat} (hx : x < s.fbw) (hx' : x' < s.fbw)
    (hne : ¬ (x' = x ∧ y' = y)) :
    s.pixelByte x y + s.fbd / 8 ≤ s.pixelByte x' y' ∨
      s.pixelByte x' y' + s.fbd / 8 ≤ s.pixelByte x y := by
  rw [pixelByte_cellAt, pixelByte_cellAt]
  have hcell : cellAt s.fbw y x ≠ cellAt s.fbw y' x' := by
    intro heq
    obtain ⟨hrow, hcolumn⟩ := (cellAt_inj hx hx').mp heq
    exact hne ⟨hcolumn.symm, hrow.symm⟩
  rcases Nat.lt_or_gt_of_ne hcell with hlt | hgt
  · have hbytes := Nat.mul_le_mul_right (s.fbd / 8) (Nat.succ_le_of_lt hlt)
    rw [Nat.succ_mul] at hbytes
    exact .inl hbytes
  · have hbytes := Nat.mul_le_mul_right (s.fbd / 8) (Nat.succ_le_of_lt hgt)
    rw [Nat.succ_mul] at hbytes
    exact .inr hbytes

/-- A pixel reads the same as long as its bytes do. -/
theorem fbReadpixel_congr (h : s.Shows x y) (hlen : fbmem'.length = fbmem.length)
    (hbytes : ∀ i < dstSize abi s, fbmem'[s.pixelByte x y + i]? = fbmem[s.pixelByte x y + i]?) :
    fbReadpixel abi s fbmem' s.fbw s.fbh x y = fbReadpixel abi s fbmem s.fbw s.fbh x y := by
  rw [fbReadpixel, fbReadpixel, if_neg h.admitted, if_neg h.admitted, bind_of_ok h.pixelOffset,
    bind_of_ok h.pixelOffset, loadBytes_congr hlen hbytes]

variable (hs : s.Viewer abi)
include hs

theorem Screen.Viewer.shows (hx : x < 480) (hy : y < 272) : s.Shows x y := by
  refine shows_of_lt ?_ (by rw [hs.fbw]; exact hx) (by rw [hs.fbh]; exact hy)
  rw [hs.fbw, hs.fbh]
  rcases s.depth with hd | hd | hd <;> rw [hd] <;> omega

/-- One call: the memory follows the colours. -/
theorem setPixel_displays {call : SetPixel} (hcall : call.x < 480 ∧ call.y < 272)
    (h : Displays abi s fbmem colours) :
    ∃ fbmem', setPixel abi s fbmem call = .ok fbmem' ∧
      Displays abi s fbmem' (colours.paint call) := by
  have hpaints : Paints abi s fbmem call.x call.y (UInt32.ofNat call.color) :=
    (paints_iff_shows hs.disjoint hs.dst).mpr (hs.shows hcall.1 hcall.2)
  have hset := hpaints.fbSetpixel h.length
  have htouches := hpaints.touchesOnly h.length
  obtain ⟨fbmem', hfbmem'⟩ : ∃ fbmem', splice fbmem (s.pixelByte call.x call.y)
      (pixelWord abi s (UInt32.ofNat call.color)) = fbmem' := ⟨_, rfl⟩
  have hlen : fbmem'.length = fbmem.length := by
    rw [← hfbmem']
    exact splice_length (by rw [length_pixelWord]; exact hpaints.room h.length)
  rw [hfbmem'] at hset htouches
  rw [hs.fbw, hs.fbh] at hset
  refine ⟨fbmem', bind_of_ok hset, hlen.trans h.length, fun x hx y hy color hcolor => ?_⟩
  rw [Colours.paint] at hcolor
  split at hcolor
  · next hhere =>
    obtain ⟨rfl, rfl⟩ := hhere
    cases hcolor
    obtain ⟨packed, hpack, hread⟩ := htouches.reads
    rw [hs.fbw, hs.fbh, ← (packs_of_packColor hpack).2] at hread
    exact hread
  · next hother =>
    have hframe := @fbReadpixel_congr abi s fbmem fbmem' x y (hs.shows hx hy) hlen fun i hi => by
      apply htouches.frame
      have hapart := @pixelByte_disjoint s x y call.x call.y (by rw [hs.fbw]; exact hx)
        (by rw [hs.fbw]; exact hcall.1) hother
      rw [hs.dst] at hi
      omega
    rw [hs.fbw, hs.fbh] at hframe
    exact hframe.trans (h.reads x hx y hy color hcolor)

end Displays

-- ============================================================================
-- The viewer
-- ============================================================================

section Viewers

variable {abi : Abi} {s : Screen} {fbmem : List UInt8}

theorem mem_fillRect {x1 y1 color : Nat} {call : SetPixel} :
    call ∈ fillRect 0 0 x1 y1 color ↔ call.x < x1 ∧ call.y < y1 ∧ call.color = color := by
  obtain ⟨x, y, c⟩ := call
  simp only [fillRect, List.mem_flatMap, List.mem_map, List.mem_range', SetPixel.mk.injEq]
  refine ⟨?_, ?_⟩
  · rintro ⟨y', ⟨i, hi, rfl⟩, x', ⟨j, hj, rfl⟩, rfl, rfl, rfl⟩
    exact ⟨by omega, by omega, rfl⟩
  · rintro ⟨hx, hy, rfl⟩
    exact ⟨y, ⟨y, by omega, by omega⟩, x, ⟨x, by omega, by omega⟩, rfl, rfl, rfl⟩

theorem mem_screen {p : Picture} {f : Nat → Nat → Nat} {call : SetPixel} :
    call ∈ p.screen f ↔ call.x < p.width ∧ call.y < p.height ∧ call.color = f call.x call.y := by
  obtain ⟨x, y, c⟩ := call
  simp only [Picture.screen, List.mem_flatMap, List.mem_map, List.mem_range, SetPixel.mk.injEq]
  refine ⟨?_, ?_⟩
  · rintro ⟨y', hy, x', hx, rfl, rfl, rfl⟩
    exact ⟨hx, hy, rfl⟩
  · rintro ⟨hx, hy, rfl⟩
    exact ⟨y, hy, x, hx, rfl, rfl, rfl⟩

/-- The colours after all calls of `main`. -/
theorem foldl_paint_main (p : Picture) {x y : Nat} (hx : x < 480) (hy : y < 272)
    (colours : Colours) :
    (fillRect 0 0 480 272 0 ++ p.screen p.drawnColour).foldl Colours.paint colours x y
      = some (if x < p.width ∧ y < p.height then p.drawnColour x y else 0) := by
  have hblack : ∀ call ∈ fillRect 0 0 480 272 0, call.x = x → call.y = y → call.color = 0 :=
    fun call hcall _ _ => (mem_fillRect.mp hcall).2.2
  have hdrawn : ∀ call ∈ p.screen p.drawnColour, call.x = x → call.y = y →
      call.color = p.drawnColour x y := by
    rintro call hcall rfl rfl
    exact (mem_screen.mp hcall).2.2
  have hfilled : ∃ call ∈ fillRect 0 0 480 272 0, call.x = x ∧ call.y = y :=
    ⟨⟨x, y, 0⟩, mem_fillRect.mpr ⟨hx, hy, rfl⟩, rfl, rfl⟩
  rw [List.foldl_append, foldl_paint hdrawn, foldl_paint hblack, if_pos hfilled]
  by_cases hin : x < p.width ∧ y < p.height
  · have hcall : ∃ call ∈ p.screen p.drawnColour, call.x = x ∧ call.y = y :=
      ⟨⟨x, y, p.drawnColour x y⟩, mem_screen.mpr ⟨hin.1, hin.2, rfl⟩, rfl, rfl⟩
    rw [if_pos hin, if_pos hcall]
  · rw [if_neg hin, if_neg]
    rintro ⟨call, hcall, rfl, rfl⟩
    obtain ⟨hwidth, hheight, -⟩ := mem_screen.mp hcall
    exact hin ⟨hwidth, hheight⟩

/-- After the viewer has run on a well-formed picture, every position of the picture reads as the
    colour drawn there, and the rest of the screen is black. -/
theorem display_eq (hs : s.Viewer abi) (p : Picture) (heap : Nat → UInt8)
    (hmapped : fbmem.length = s.screensize) :
    ∃ fbmem', display abi s p.file heap fbmem = .ok (some fbmem') ∧
      ∀ x y : Nat, x < 480 → y < 272 → fbReadpixel abi s fbmem' 480 272 x y
        = .ok (s.packed abi (if x < p.width ∧ y < p.height then p.drawnColour x y else 0)) := by
  have hcalls : ∀ call ∈ fillRect 0 0 480 272 0 ++ p.screen p.drawnColour,
      call.x < 480 ∧ call.y < 272 := by
    intro call hcall
    rcases List.mem_append.mp hcall with hcall | hcall
    · obtain ⟨hx, hy, -⟩ := mem_fillRect.mp hcall
      exact ⟨hx, hy⟩
    · obtain ⟨hx, hy, -⟩ := mem_screen.mp hcall
      exact ⟨Nat.lt_of_lt_of_le hx p.fitsWidth, Nat.lt_of_lt_of_le hy p.fitsHeight⟩
  have hstart : Displays abi s fbmem fun _ _ => none :=
    ⟨hmapped, fun x _ y _ color hcolor => (by cases hcolor)⟩
  have hstep : ∀ fbmem colours (call : SetPixel), call.x < 480 ∧ call.y < 272 →
      Displays abi s fbmem colours → ∃ fbmem', setPixel abi s fbmem call = .ok fbmem' ∧
        Displays abi s fbmem' (colours.paint call) :=
    fun _ _ _ hcall h => setPixel_displays hs hcall h
  obtain ⟨fbmem', hrun, hdisplays⟩ := runSteps_refines hstep hcalls hstart
  refine ⟨fbmem', ?_, fun x y hx hy => hdisplays.reads x hx y hy _ (foldl_paint_main p hx hy _)⟩
  rw [display, bind_of_ok (main_eq p heap)]
  exact bind_of_ok hrun

end Viewers

end LinuxCodeDemos.Bmp

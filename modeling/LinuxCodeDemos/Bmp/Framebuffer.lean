/-
  LinuxCodeDemos.Bmp.Framebuffer

  The framebuffer of `linux_bmp_show`: `fb_setpixel` and `fb_readpixel` on the memory that `fb_init`
  maps.

  - Left shifts of an `int` wrap, as gcc has it; sums and products of `int`s are checked.
  - The index of the pixel is converted to `unsigned int` before it is multiplied by the depth.
  - Below 24 bits a pixel is stored as an `unsigned short`, else as an `unsigned long`, four bytes
    on the target of the `Makefile` and eight on a 64-bit one.  Words are little-endian, and may be
    stored at any address.

  `fb_setpixel` admits the column and the row behind the last one, and negative ones, and its store
  may be wider than the pixel: `fbSetpixel_touches_iff` says when it touches one pixel only.
-/

import LinuxCodeDemos.Bmp.Image

namespace LinuxCodeDemos.Bmp

open Lib

-- ============================================================================
-- The screen
-- ============================================================================

/-- The sizes of the C types on the machine. -/
inductive Abi where
  | ilp32
  | lp64
  deriving DecidableEq, Repr

/-- `sizeof (unsigned long)`. -/
def Abi.sizeofLong : Abi → Nat
  | .ilp32 => 4
  | .lp64 => 8

/-- `color_t`. -/
structure ColorT where
  offset : Nat
  length : Nat
  deriving DecidableEq, Repr

/-- `color_field_t`. -/
structure ColorField where
  red : ColorT
  green : ColorT
  blue : ColorT
  deriving DecidableEq, Repr

/-- What `_fb_stat` has asked from the driver. -/
structure Screen where
  fbw : Nat
  fbh : Nat
  fbd : Nat
  colorField : ColorField
  width : fbw ≤ intMax
  height : fbh ≤ intMax
  depth : fbd = 16 ∨ fbd = 24 ∨ fbd = 32
  red : colorField.red.length ≤ 8
  green : colorField.green.length ≤ 8
  blue : colorField.blue.length ≤ 8

/-- `nu32_screensize`, the bytes that `fb_init` maps. -/
def Screen.screensize (s : Screen) : Nat := s.fbw * s.fbh * s.fbd % 2 ^ 32 / 8

-- ============================================================================
-- Colours
-- ============================================================================

/-- The bits of a colour that a channel takes: its byte begins at bit `pos`. -/
def channel (color24 : UInt32) (pos : Nat) (c : ColorT) : Nat :=
  color24.toNat >>> (pos + (8 - c.length)) &&& (1 <<< c.length - 1)

/-- `v << offset` on `int`s. -/
def shiftInt (v offset : Nat) : Except Fault Int :=
  if offset < 32 then .ok (toInt (v <<< offset)) else .error .overflow

/-- `color` in `fb_setpixel`. -/
def packColor (f : ColorField) (color24 : UInt32) : Except Fault Int := do
  let r ← shiftInt (channel color24 16 f.red) f.red.offset
  let g ← shiftInt (channel color24 8 f.green) f.green.offset
  let b ← shiftInt (channel color24 0 f.blue) f.blue.offset
  let rg ← checkInt (r + g)
  checkInt (rg + b)

/-- An `int` converted to an unsigned type of `size` bytes. -/
def toUnsigned (size : Nat) (n : Int) : Nat := (n % 256 ^ size).toNat

-- ============================================================================
-- `fb_setpixel` and `fb_readpixel`
-- ============================================================================

/-- `(y * width + x) * fbd / 8`. -/
def pixelOffset (s : Screen) (width x y : Int) : Except Fault Nat := do
  let row ← checkInt (y * width)
  let i ← checkInt (row + x)
  .ok (toUnsigned 4 i * s.fbd % 2 ^ 32 / 8)

/-- The bytes of the word behind `dst`. -/
def dstSize (abi : Abi) (s : Screen) : Nat := if s.fbd < 24 then 2 else abi.sizeofLong

/-- `fb_setpixel`: what it returns, and the memory afterwards. -/
def fbSetpixel (abi : Abi) (s : Screen) (fbmem : List UInt8) (width height x y : Int)
    (color24 : UInt32) : Except Fault (Int × List UInt8) :=
  if x > width ∨ y > height then .ok (-1, fbmem)
  else do
    let color ← packColor s.colorField color24
    let dst ← pixelOffset s width x y
    let fbmem ← store fbmem dst (wordBytes (dstSize abi s) (toUnsigned (dstSize abi s) color))
    .ok (0, fbmem)

/-- `fb_readpixel`. -/
def fbReadpixel (abi : Abi) (s : Screen) (fbmem : List UInt8) (width height x y : Int) :
    Except Fault Nat :=
  if x > width ∨ y > height then .ok (toUnsigned abi.sizeofLong (-1))
  else do
    let dst ← pixelOffset s width x y
    let bytes ← loadBytes fbmem dst (dstSize abi s)
    .ok (wordOfBytes bytes)

-- ============================================================================
-- One pixel
-- ============================================================================

/-- The first byte of a pixel. -/
def Screen.pixelByte (s : Screen) (x y : Int) : Nat := (y * s.fbw + x).toNat * (s.fbd / 8)

/-- The pixel is on the screen, and its bytes are mapped. -/
structure Screen.Shows (s : Screen) (x y : Int) : Prop where
  column : 0 ≤ x ∧ x < s.fbw
  row : 0 ≤ y ∧ y < s.fbh
  mapped : s.pixelByte x y + s.fbd / 8 ≤ s.screensize

/-- Only the bytes of the pixel have changed, and it reads as the packed colour. -/
structure TouchesOnly (abi : Abi) (s : Screen) (fbmem fbmem' : List UInt8) (x y : Int)
    (color24 : UInt32) : Prop where
  shows : s.Shows x y
  frame : ∀ i, i < s.pixelByte x y ∨ s.pixelByte x y + s.fbd / 8 ≤ i → fbmem'[i]? = fbmem[i]?
  reads : ∃ color, packColor s.colorField color24 = .ok color ∧
    fbReadpixel abi s fbmem' s.fbw s.fbh x y = .ok (toUnsigned abi.sizeofLong color)

/-- A call of `fb_setpixel` runs, and touches one pixel only if it returns 0. -/
def SetsPixel (abi : Abi) (s : Screen) (fbmem : List UInt8) (x y : Int) (color24 : UInt32) : Prop :=
  ∃ code fbmem', fbSetpixel abi s fbmem s.fbw s.fbh x y color24 = .ok (code, fbmem') ∧
    (code = 0 → TouchesOnly abi s fbmem fbmem' x y color24)

-- ============================================================================
-- Packing
-- ============================================================================

/-- A channel of a colour at its place in the pixel. -/
def ColorT.part (c : ColorT) (color24 : UInt32) (pos : Nat) : Int :=
  toInt (channel color24 pos c <<< c.offset)

/-- The sum of the channels. -/
def ColorField.color (f : ColorField) (color24 : UInt32) : Int :=
  f.red.part color24 16 + f.green.part color24 8 + f.blue.part color24 0

/-- The channels can be shifted and added in an `int`. -/
structure ColorField.Packs (f : ColorField) (color24 : UInt32) : Prop where
  red : f.red.offset < 32
  green : f.green.offset < 32
  blue : f.blue.offset < 32
  redGreen : -2 ^ 31 ≤ f.red.part color24 16 + f.green.part color24 8 ∧
    f.red.part color24 16 + f.green.part color24 8 ≤ intMax
  sum : -2 ^ 31 ≤ f.color color24 ∧ f.color color24 ≤ intMax

section Packing

variable {f : ColorField} {color24 : UInt32} {color : Int}

theorem shiftInt_channel {c : ColorT} (h : c.offset < 32) (pos : Nat) :
    shiftInt (channel color24 pos c) c.offset = .ok (c.part color24 pos) := if_pos h

theorem part_of_shiftInt {c : ColorT} {pos : Nat}
    (h : shiftInt (channel color24 pos c) c.offset = .ok color) :
    c.offset < 32 ∧ c.part color24 pos = color := by
  have hlt : c.offset < 32 := by
    by_contra hge
    rw [shiftInt, if_neg hge] at h
    cases h
  rw [shiftInt_channel hlt] at h
  exact ⟨hlt, Except.ok.inj h⟩

theorem ColorField.Packs.packColor (h : f.Packs color24) :
    packColor f color24 = .ok (f.color color24) := by
  rw [Bmp.packColor, bind_of_ok (shiftInt_channel h.red 16),
    bind_of_ok (shiftInt_channel h.green 8), bind_of_ok (shiftInt_channel h.blue 0),
    bind_of_ok (checkInt_of_le h.redGreen.1 h.redGreen.2)]
  exact checkInt_of_le h.sum.1 h.sum.2

/-- A colour is the sum of its channels, or packing it has no result. -/
theorem packs_of_packColor (h : packColor f color24 = .ok color) :
    f.Packs color24 ∧ f.color color24 = color := by
  obtain ⟨r, hr, h⟩ := exists_ok_of_bind h
  obtain ⟨g, hg, h⟩ := exists_ok_of_bind h
  obtain ⟨b, hb, h⟩ := exists_ok_of_bind h
  obtain ⟨rg, hrg, h⟩ := exists_ok_of_bind h
  obtain ⟨hred, hr⟩ := part_of_shiftInt hr
  obtain ⟨hgreen, hg⟩ := part_of_shiftInt hg
  obtain ⟨hblue, hb⟩ := part_of_shiftInt hb
  obtain ⟨hredGreen, hrg⟩ := checkInt_eq_ok hrg
  obtain ⟨hsum, hcolor⟩ := checkInt_eq_ok h
  rw [hrg, ← hr, ← hg, ← hb] at hsum hcolor
  rw [← hr, ← hg] at hredGreen
  exact ⟨⟨hred, hgreen, hblue, hredGreen, hsum⟩, hcolor.symm⟩

/-- The channels are in a pixel of `depth` bits, and no two of them overlap. -/
structure ColorField.Disjoint (f : ColorField) (depth : Nat) : Prop where
  red : f.red.offset < depth ∧ f.red.offset + f.red.length ≤ depth
  green : f.green.offset < depth ∧ f.green.offset + f.green.length ≤ depth
  blue : f.blue.offset < depth ∧ f.blue.offset + f.blue.length ≤ depth
  redGreen : f.red.offset + f.red.length ≤ f.green.offset ∨
    f.green.offset + f.green.length ≤ f.red.offset
  redBlue : f.red.offset + f.red.length ≤ f.blue.offset ∨
    f.blue.offset + f.blue.length ≤ f.red.offset
  greenBlue : f.green.offset + f.green.length ≤ f.blue.offset ∨
    f.blue.offset + f.blue.length ≤ f.green.offset

theorem channel_lt (color24 : UInt32) (pos : Nat) (c : ColorT) :
    channel color24 pos c < 2 ^ c.length := by
  rw [channel, Nat.one_shiftLeft]
  exact Nat.and_lt_two_pow _ (Nat.sub_lt (Nat.two_pow_pos _) Nat.one_pos)

/-- A value of `length` bits, shifted, ends below the next channel. -/
theorem shiftLeft_add_le {v offset length : Nat} (h : v < 2 ^ length) :
    v <<< offset + 2 ^ offset ≤ 2 ^ (offset + length) := by
  have hmul := Nat.mul_le_mul_right (2 ^ offset) (Nat.succ_le_of_lt h)
  rw [Nat.succ_mul] at hmul
  rwa [Nat.shiftLeft_eq, Nat.pow_add, Nat.mul_comm (2 ^ offset)]

/-- A shifted value that does not reach bit `n` ends below it. -/
theorem shiftLeft_add_le_of_lt {v offset n : Nat} (hoffset : offset ≤ n)
    (h : v <<< offset < 2 ^ n) : v <<< offset + 2 ^ offset ≤ 2 ^ n := by
  obtain ⟨m, rfl⟩ := Nat.exists_eq_add_of_le hoffset
  apply shiftLeft_add_le
  rw [Nat.shiftLeft_eq, Nat.pow_add, Nat.mul_comm] at h
  exact Nat.lt_of_mul_lt_mul_left h

/-- What three intervals hold that do not overlap. -/
theorem add_lt_of_disjoint {r g b r₀ r₁ g₀ g₁ b₀ b₁ n : Nat} (hr : r + r₀ ≤ r₁ ∧ r + r₀ ≤ n)
    (hg : g + g₀ ≤ g₁ ∧ g + g₀ ≤ n) (hb : b + b₀ ≤ b₁ ∧ b + b₀ ≤ n)
    (hpos : 0 < r₀ ∧ 0 < g₀ ∧ 0 < b₀) (hrg : r₁ ≤ g₀ ∨ g₁ ≤ r₀) (hrb : r₁ ≤ b₀ ∨ b₁ ≤ r₀)
    (hgb : g₁ ≤ b₀ ∨ b₁ ≤ g₀) : r + g + b < n := by
  omega

section Layouts

variable {depth : Nat}

/-- The channels of such a layout add up to less than any power of two that each of them stays
    below. -/
theorem ColorField.Disjoint.add_lt (hf : f.Disjoint depth) {n : Nat} (hdepth : depth ≤ n + 1)
    (hred : channel color24 16 f.red <<< f.red.offset < 2 ^ n)
    (hgreen : channel color24 8 f.green <<< f.green.offset < 2 ^ n)
    (hblue : channel color24 0 f.blue <<< f.blue.offset < 2 ^ n) :
    channel color24 16 f.red <<< f.red.offset + channel color24 8 f.green <<< f.green.offset
      + channel color24 0 f.blue <<< f.blue.offset < 2 ^ n := by
  have hpow : ∀ {i j : Nat}, i ≤ j → 2 ^ i ≤ 2 ^ j := fun h => Nat.pow_le_pow_right (by omega) h
  obtain ⟨⟨hr, -⟩, ⟨hg, -⟩, ⟨hb, -⟩, hrg, hrb, hgb⟩ := hf
  exact add_lt_of_disjoint
    ⟨shiftLeft_add_le (channel_lt color24 16 f.red), shiftLeft_add_le_of_lt (by omega) hred⟩
    ⟨shiftLeft_add_le (channel_lt color24 8 f.green), shiftLeft_add_le_of_lt (by omega) hgreen⟩
    ⟨shiftLeft_add_le (channel_lt color24 0 f.blue), shiftLeft_add_le_of_lt (by omega) hblue⟩
    ⟨Nat.two_pow_pos _, Nat.two_pow_pos _, Nat.two_pow_pos _⟩
    (hrg.imp hpow hpow) (hrb.imp hpow hpow) (hgb.imp hpow hpow)

theorem ColorT.shifted_lt {c : ColorT} {pos : Nat} (h : c.offset + c.length ≤ depth) :
    channel color24 pos c <<< c.offset < 2 ^ depth := by
  have hle := @shiftLeft_add_le _ c.offset _ (channel_lt color24 pos c)
  have hpos := Nat.two_pow_pos c.offset
  have hpow : 2 ^ (c.offset + c.length) ≤ 2 ^ depth := Nat.pow_le_pow_right (by omega) h
  omega

/-- A channel at its place, as a number. -/
theorem ColorT.part_cases {c : ColorT} {pos : Nat}
    (h : channel color24 pos c <<< c.offset < 2 ^ 32) :
    (channel color24 pos c <<< c.offset < 2 ^ 31 ∧
      c.part color24 pos = (channel color24 pos c <<< c.offset : Nat)) ∨
    (2 ^ 31 ≤ channel color24 pos c <<< c.offset ∧
      c.part color24 pos = (channel color24 pos c <<< c.offset : Nat) - (2 ^ 32 : Nat)) := by
  rw [ColorT.part]
  generalize channel color24 pos c <<< c.offset = n at h ⊢
  rcases Nat.lt_or_ge n (2 ^ 31) with hlow | hhigh
  · exact .inl ⟨hlow, toInt_of_lt hlow⟩
  · exact .inr ⟨hhigh, toInt_of_ge hhigh h⟩

/-- Such a layout packs every colour, and on 16 bits into a short word. -/
theorem ColorField.Disjoint.packs (hf : f.Disjoint depth) (hdepth : depth ≤ 32) :
    f.Packs color24 ∧ (depth = 16 → 0 ≤ f.color color24 ∧ f.color color24 < 2 ^ 16) := by
  have hpow : 2 ^ depth ≤ 2 ^ 32 := Nat.pow_le_pow_right (by omega) hdepth
  have hr := @ColorT.shifted_lt color24 depth f.red 16 hf.red.2
  have hg := @ColorT.shifted_lt color24 depth f.green 8 hf.green.2
  have hb := @ColorT.shifted_lt color24 depth f.blue 0 hf.blue.2
  have hred := @ColorT.part_cases color24 f.red 16 (by omega)
  have hgreen := @ColorT.part_cases color24 f.green 8 (by omega)
  have hblue := @ColorT.part_cases color24 f.blue 0 (by omega)
  have hshort := fun h : depth = 16 => @ColorField.Disjoint.add_lt f color24 depth hf 16 (by omega)
    (h ▸ hr) (h ▸ hg) (h ▸ hb)
  have hlow := @ColorField.Disjoint.add_lt f color24 depth hf 31 (by omega)
  have hall := @ColorField.Disjoint.add_lt f color24 depth hf 32 (by omega)
    (by omega) (by omega) (by omega)
  generalize channel color24 16 f.red <<< f.red.offset = r at hr hred hshort hlow hall
  generalize channel color24 8 f.green <<< f.green.offset = g at hg hgreen hshort hlow hall
  generalize channel color24 0 f.blue <<< f.blue.offset = b at hb hblue hshort hlow hall
  have hsmall : r < 2 ^ 31 ∧ g < 2 ^ 31 ∧ b < 2 ^ 31 → r + g + b < 2 ^ 31 :=
    fun h => hlow h.1 h.2.1 h.2.2
  refine ⟨⟨Nat.lt_of_lt_of_le hf.red.1 hdepth, Nat.lt_of_lt_of_le hf.green.1 hdepth,
    Nat.lt_of_lt_of_le hf.blue.1 hdepth, ?_, ?_⟩, fun hdepth16 => ?_⟩
  · rw [intMax]
    omega
  · rw [ColorField.color, intMax]
    omega
  · have hsum := hshort hdepth16
    rw [ColorField.color]
    omega

end Layouts

end Packing

-- ============================================================================
-- The word of a pixel
-- ============================================================================

section Words

variable {abi : Abi} {s : Screen} {x y : Int}

theorem screensize_lt (s : Screen) : s.screensize < 2 ^ 29 := by
  have hmod : s.fbw * s.fbh * s.fbd % 2 ^ 32 < 2 ^ 32 := Nat.mod_lt _ (by omega)
  rw [Screen.screensize]
  omega

/-- The pixel is not wider than its word. -/
theorem depth_le_dstSize (abi : Abi) (s : Screen) : s.fbd / 8 ≤ dstSize abi s := by
  rcases s.depth with h | h | h
  · rw [dstSize, if_pos (by omega), h]
  · rw [dstSize, if_neg (by omega), h]
    cases abi <;> decide
  · rw [dstSize, if_neg (by omega), h]
    cases abi <;> decide

theorem dstSize_long (abi : Abi) (h : s.fbd ≠ 16) : dstSize abi s = abi.sizeofLong :=
  if_neg (by have hdepth := s.depth; omega)

/-- The address of a pixel that is mapped. -/
theorem Screen.Shows.pixelOffset (h : s.Shows x y) :
    pixelOffset s s.fbw x y = .ok (s.pixelByte x y) := by
  have hsize := screensize_lt s
  have hmapped := h.mapped
  obtain ⟨hx, -⟩ := h.column
  obtain ⟨hy, -⟩ := h.row
  have hrow : 0 ≤ y * s.fbw := Int.mul_nonneg hy (Int.natCast_nonneg _)
  obtain ⟨i, hi⟩ := Int.eq_ofNat_of_zero_le (Int.add_nonneg hrow hx)
  rw [Screen.pixelByte, hi, Int.toNat_natCast] at hmapped ⊢
  have hindex : i * s.fbd % 2 ^ 32 / 8 = i * (s.fbd / 8) ∧ i < 2 ^ 29 := by
    rcases s.depth with hd | hd | hd <;> rw [hd] at hmapped ⊢ <;> omega
  have hunsigned : toUnsigned 4 (i : Int) = i := by
    rw [toUnsigned, Int.emod_eq_of_lt (by omega) (by omega), Int.toNat_natCast]
  have hrowInt : checkInt (y * s.fbw) = .ok (y * s.fbw) :=
    checkInt_of_le (by omega) (by rw [intMax]; omega)
  have hindexInt : checkInt (y * s.fbw + x) = .ok (i : Int) := by
    rw [hi]
    exact checkInt_of_le (by omega) (by rw [intMax]; omega)
  rw [Bmp.pixelOffset, bind_of_ok hrowInt, bind_of_ok hindexInt, hunsigned, hindex.1]

end Words

-- ============================================================================
-- Setting a pixel
-- ============================================================================

/-- When `fb_setpixel` touches one pixel only: the pixel is on the screen and mapped, its channels
    add up to an `int` that fits its word, and what the word has behind the pixel is there
    already. -/
structure Paints (abi : Abi) (s : Screen) (fbmem : List UInt8) (x y : Int) (color24 : UInt32) :
    Prop where
  shows : s.Shows x y
  packs : s.colorField.Packs color24
  short : s.fbd = 16 → 0 ≤ s.colorField.color color24 ∧ s.colorField.color color24 < 2 ^ 16
  spill : ∀ k, s.fbd / 8 ≤ k → k < dstSize abi s →
    fbmem[s.pixelByte x y + k]?
      = some (UInt8.ofNat (toUnsigned (dstSize abi s) (s.colorField.color color24) / 256 ^ k))

section Setting

variable {abi : Abi} {s : Screen} {fbmem fbmem' : List UInt8} {x y : Int} {color24 : UInt32}

/-- The bytes that are stored. -/
def pixelWord (abi : Abi) (s : Screen) (color24 : UInt32) : List UInt8 :=
  wordBytes (dstSize abi s) (toUnsigned (dstSize abi s) (s.colorField.color color24))

@[simp] theorem length_pixelWord : (pixelWord abi s color24).length = dstSize abi s :=
  length_wordBytes _ _

theorem dstSize_pos (abi : Abi) (s : Screen) : 0 < dstSize abi s := by
  have hle := depth_le_dstSize abi s
  have hdepth := s.depth
  omega

theorem pixelWord_ne_nil : pixelWord abi s color24 ≠ [] := by
  intro h
  have hlen := @length_pixelWord abi s color24
  rw [h, List.length_nil] at hlen
  exact absurd (dstSize_pos abi s) (by omega)

theorem Screen.Shows.admitted (h : s.Shows x y) : ¬ (x > (s.fbw : Int) ∨ y > (s.fbh : Int)) := by
  obtain ⟨-, hx⟩ := h.column
  obtain ⟨-, hy⟩ := h.row
  omega

theorem fbSetpixel_shown (h : s.Shows x y) (hpacks : s.colorField.Packs color24) :
    fbSetpixel abi s fbmem s.fbw s.fbh x y color24
      = (store fbmem (s.pixelByte x y) (pixelWord abi s color24) >>=
          fun fbmem => .ok (0, fbmem)) := by
  rw [fbSetpixel, if_neg h.admitted, bind_of_ok hpacks.packColor, bind_of_ok h.pixelOffset]
  rfl

theorem toUnsigned_lt (size : Nat) (n : Int) : toUnsigned size n < 256 ^ size := by
  have hpos : (0 : Int) < 256 ^ size := Int.pow_pos (by omega)
  have hlt := Int.emod_lt_of_pos n hpos
  have hnonneg := Int.emod_nonneg n (Int.ne_of_gt hpos)
  rw [toUnsigned, Int.toNat_lt hnonneg]
  exact_mod_cast hlt

/-- The word is read back. -/
theorem fbReadpixel_stored (h : s.Shows x y)
    (hroom : s.pixelByte x y + dstSize abi s ≤ fbmem.length) :
    fbReadpixel abi s (splice fbmem (s.pixelByte x y) (pixelWord abi s color24)) s.fbw s.fbh x y
      = .ok (toUnsigned (dstSize abi s) (s.colorField.color color24)) := by
  have hload := @loadBytes_splice _ fbmem (pixelWord abi s color24) (s.pixelByte x y)
    (by rw [length_pixelWord]; exact hroom)
  rw [length_pixelWord] at hload
  rw [fbReadpixel, if_neg h.admitted, bind_of_ok h.pixelOffset, bind_of_ok hload, pixelWord,
    wordOfBytes_wordBytes, Nat.mod_eq_of_lt (toUnsigned_lt _ _)]

/-- It is the colour, unless the pixel is short and the colour is not. -/
theorem toUnsigned_dstSize (hpacks : s.colorField.Packs color24) :
    toUnsigned (dstSize abi s) (s.colorField.color color24)
        = toUnsigned abi.sizeofLong (s.colorField.color color24) ↔
      (s.fbd = 16 → 0 ≤ s.colorField.color color24 ∧ s.colorField.color color24 < 2 ^ 16) := by
  by_cases hd : s.fbd = 16
  · have hsum := hpacks.sum
    have hsize : dstSize abi s = 2 := if_pos (by omega)
    rw [intMax] at hsum
    rw [hsize]
    generalize s.colorField.color color24 = color at hsum ⊢
    rw [toUnsigned, toUnsigned]
    cases abi with
    | ilp32 =>
        rw [Abi.sizeofLong]
        omega
    | lp64 =>
        rw [Abi.sizeofLong]
        omega
  · rw [dstSize_long abi hd]
    exact iff_of_true rfl (fun h => absurd h hd)

theorem splice_pixelWord (hroom : s.pixelByte x y + dstSize abi s ≤ fbmem.length) (i : Nat) :
    (splice fbmem (s.pixelByte x y) (pixelWord abi s color24))[i]? =
      if s.pixelByte x y ≤ i ∧ i < s.pixelByte x y + dstSize abi s then
        (pixelWord abi s color24)[i - s.pixelByte x y]?
      else fbmem[i]? := by
  rw [splice_getElem? (by rw [length_pixelWord]; exact hroom), length_pixelWord]

/-- There is room for the word. -/
theorem Paints.room (h : Paints abi s fbmem x y color24) (hmapped : fbmem.length = s.screensize) :
    s.pixelByte x y + dstSize abi s ≤ fbmem.length := by
  have hpixel := h.shows.mapped
  rcases Nat.lt_or_ge (s.fbd / 8) (dstSize abi s) with hwide | hnarrow
  · have hlast := h.spill (dstSize abi s - 1) (by omega) (by omega)
    obtain ⟨hlt, -⟩ := List.getElem?_eq_some_iff.mp hlast
    omega
  · omega

theorem Paints.fbSetpixel (h : Paints abi s fbmem x y color24)
    (hmapped : fbmem.length = s.screensize) :
    fbSetpixel abi s fbmem s.fbw s.fbh x y color24
      = .ok (0, splice fbmem (s.pixelByte x y) (pixelWord abi s color24)) := by
  rw [fbSetpixel_shown h.shows h.packs,
    bind_of_ok (store_of_le (by rw [length_pixelWord]; exact h.room hmapped))]

theorem Paints.touchesOnly (h : Paints abi s fbmem x y color24)
    (hmapped : fbmem.length = s.screensize) :
    TouchesOnly abi s fbmem (splice fbmem (s.pixelByte x y) (pixelWord abi s color24)) x y
      color24 := by
  have hroom := h.room hmapped
  refine ⟨h.shows, fun i hi => ?_, _, h.packs.packColor, ?_⟩
  · rw [splice_pixelWord hroom]
    split
    · next hin =>
      -- a byte of the word behind the pixel
      obtain ⟨k, rfl⟩ := Nat.exists_eq_add_of_le hin.1
      rw [Nat.add_sub_cancel_left, pixelWord, getElem?_wordBytes (by omega),
        h.spill k (by omega) (by omega)]
    · rfl
  · rw [fbReadpixel_stored h.shows hroom, (toUnsigned_dstSize h.packs).mpr h.short]

theorem TouchesOnly.paints (h : TouchesOnly abi s fbmem fbmem' x y color24)
    (hset : fbSetpixel abi s fbmem s.fbw s.fbh x y color24 = .ok (0, fbmem')) :
    Paints abi s fbmem x y color24 := by
  obtain ⟨color, hpack, hread⟩ := h.reads
  obtain ⟨hpacks, hcolor⟩ := packs_of_packColor hpack
  rw [fbSetpixel_shown h.shows hpacks] at hset
  obtain ⟨stored, hstore, hset⟩ := exists_ok_of_bind hset
  obtain rfl : stored = fbmem' := (Prod.mk.inj (Except.ok.inj hset)).2
  obtain ⟨hroom, rfl⟩ := store_inside pixelWord_ne_nil hstore
  rw [length_pixelWord] at hroom
  refine ⟨h.shows, hpacks, ?_, fun k hk hsize => ?_⟩
  · rw [fbReadpixel_stored h.shows hroom, ← hcolor] at hread
    exact (toUnsigned_dstSize hpacks).mp (Except.ok.inj hread)
  · have hframe := h.frame (s.pixelByte x y + k) (.inr (by omega))
    rw [splice_pixelWord hroom, if_pos ⟨by omega, by omega⟩, Nat.add_sub_cancel_left, pixelWord,
      getElem?_wordBytes hsize] at hframe
    exact hframe.symm

/-- If the channels do not overlap and the word is as wide as the pixel, every pixel that is shown
    is painted. -/
theorem paints_iff_shows (hf : s.colorField.Disjoint s.fbd) (hsize : dstSize abi s = s.fbd / 8) :
    Paints abi s fbmem x y color24 ↔ s.Shows x y := by
  have hdepth : s.fbd ≤ 32 := by
    have hcases := s.depth
    omega
  refine ⟨?_, ?_⟩
  · intro h
    exact h.shows
  · intro h
    obtain ⟨hpacks, hshort⟩ := @ColorField.Disjoint.packs s.colorField color24 s.fbd hf hdepth
    refine ⟨h, hpacks, hshort, fun k hk hlt => ?_⟩
    omega

end Setting

/-- `fb_setpixel` touches one pixel only exactly if it refuses the pixel or paints it. -/
theorem fbSetpixel_touches_iff (abi : Abi) (s : Screen) (fbmem : List UInt8) (x y : Int)
    (color24 : UInt32) (hmapped : fbmem.length = s.screensize) :
    SetsPixel abi s fbmem x y color24 ↔
      (s.fbw : Int) < x ∨ (s.fbh : Int) < y ∨ Paints abi s fbmem x y color24 := by
  refine ⟨?_, ?_⟩
  · rintro ⟨code, fbmem', hset, htouches⟩
    by_cases hrefused : x > (s.fbw : Int) ∨ y > (s.fbh : Int)
    · rcases hrefused with hx | hy
      · exact .inl hx
      · exact .inr (.inl hy)
    · have hzero : code = 0 := by
        rw [fbSetpixel, if_neg hrefused] at hset
        obtain ⟨color, -, hset⟩ := exists_ok_of_bind hset
        obtain ⟨dst, -, hset⟩ := exists_ok_of_bind hset
        obtain ⟨stored, -, hset⟩ := exists_ok_of_bind hset
        exact (Prod.mk.inj (Except.ok.inj hset)).1.symm
      subst hzero
      exact .inr (.inr ((htouches rfl).paints hset))
  · intro h
    by_cases hrefused : x > (s.fbw : Int) ∨ y > (s.fbh : Int)
    · refine ⟨-1, fbmem, if_pos hrefused, fun hzero => ?_⟩
      cases hzero
    · have hpaints : Paints abi s fbmem x y color24 := by
        rcases h with hx | hy | hpaints
        · exact absurd (.inl hx) hrefused
        · exact absurd (.inr hy) hrefused
        · exact hpaints
      exact ⟨0, _, hpaints.fbSetpixel hmapped, fun _ => hpaints.touchesOnly hmapped⟩

theorem two_le_intMax : 2 ≤ intMax := by
  rw [intMax]
  omega

/-- A screen of two times two pixels of 16 bits. -/
def rgb565 : Screen where
  fbw := 2
  fbh := 2
  fbd := 16
  colorField := { red := ⟨11, 5⟩, green := ⟨5, 6⟩, blue := ⟨0, 5⟩ }
  width := two_le_intMax
  height := two_le_intMax
  depth := .inl rfl
  red := by decide
  green := by decide
  blue := by decide

theorem rgb565_disjoint : rgb565.colorField.Disjoint rgb565.fbd := by
  constructor
  all_goals decide

/-- White in the last pixel. -/
theorem fbSetpixel_touches_white :
    SetsPixel .ilp32 rgb565 [0, 0, 0, 0, 0, 0, 0, 0] 1 1 0xffffff := by
  apply (fbSetpixel_touches_iff .ilp32 rgb565 [0, 0, 0, 0, 0, 0, 0, 0] 1 1 0xffffff (by decide)).mpr
  apply Or.inr
  apply Or.inr
  apply (paints_iff_shows rgb565_disjoint rfl).mpr
  exact ⟨by decide, by decide, by decide⟩

/-- The column behind the last one is admitted: the first pixel of the next row changes. -/
theorem fbSetpixel_nextRow :
    fbSetpixel .ilp32 rgb565 [0, 0, 0, 0, 0, 0, 0, 0] rgb565.fbw rgb565.fbh 2 0 0xffffff
      = .ok (0, [0, 0, 0, 0, 255, 255, 0, 0]) ∧
    ¬ SetsPixel .ilp32 rgb565 [0, 0, 0, 0, 0, 0, 0, 0] 2 0 0xffffff := by
  have hset : fbSetpixel .ilp32 rgb565 [0, 0, 0, 0, 0, 0, 0, 0] rgb565.fbw rgb565.fbh 2 0 0xffffff
      = .ok (0, [0, 0, 0, 0, 255, 255, 0, 0]) := by decide +kernel
  refine ⟨hset, ?_⟩
  rintro ⟨code, fbmem', hcode, htouches⟩
  rw [hset] at hcode
  obtain ⟨hzero, -⟩ := Prod.mk.inj (Except.ok.inj hcode)
  obtain ⟨-, hcolumn⟩ := (htouches hzero.symm).shows.column
  exact absurd hcolumn (by decide)

end LinuxCodeDemos.Bmp

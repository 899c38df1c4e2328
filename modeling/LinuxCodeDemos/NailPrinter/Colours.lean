/-
  LinuxCodeDemos.NailPrinter.Colours

  The colours that `ConvertYUV2RGB` writes.

  `clp` is the clamping to a byte, shifted by 384; the sums of the three tables stay inside it.
  After `R` turns of the outer loop and `C` turns of the inner one the running pointers stand at
  the column `2 * C` of the rows `2 * R` and `2 * R + 1`, and the pixels of the blocks before hold
  their colours (`Walking`).
-/

import LinuxCodeDemos.Lib.Grid
import LinuxCodeDemos.NailPrinter.Convert

namespace LinuxCodeDemos.NailPrinter

open Lib

-- ============================================================================
-- Definitions
-- ============================================================================

/-- `clamp(0, 255, x)` as a byte. -/
def clampByte (x : Int) : UInt8 := UInt8.ofNat (max 0 (min 255 x)).toNat

def red (y v : UInt8) : UInt8 :=
  clampByte ((76309 * ((y.toNat : Int) - 16) + 104597 * ((v.toNat : Int) - 128)) >>> (16 : Nat))

def green (y u v : UInt8) : UInt8 :=
  clampByte ((76309 * ((y.toNat : Int) - 16) - 25675 * ((u.toNat : Int) - 128)
    - 53279 * ((v.toNat : Int) - 128)) >>> (16 : Nat))

def blue (y u : UInt8) : UInt8 :=
  clampByte ((76309 * ((y.toNat : Int) - 16) + 132201 * ((u.toNat : Int) - 128)) >>> (16 : Nat))

/-- The bytes of a pixel. -/
def rgb (y u v : UInt8) : List UInt8 := [red y v, green y u v, blue y u]

/-- A plane: the byte in row `r`, column `c`. -/
def Pointer.plane (p : Pointer) (stride r c : Nat) : UInt8 :=
  p.block.getD (p.off + cellAt stride r c) 0

/-- The planes of an image: Y in full, U and V at half the resolution. -/
structure Image (width height : Nat) where
  y : Pointer
  u : Pointer
  v : Pointer
  y_fits : y.off + height * width ≤ y.block.length
  u_fits : u.off + height / 2 * (width / 2) ≤ u.block.length
  v_fits : v.off + height / 2 * (width / 2) ≤ v.block.length

/-- The colour in row `r`, column `c`, with U and V of its block of four. -/
def Image.pixel {width height : Nat} (img : Image width height) (r c : Nat) : List UInt8 :=
  rgb (img.y.plane width r c) (img.u.plane (width / 2) (r / 2) (c / 2))
    (img.v.plane (width / 2) (r / 2) (c / 2))

/-- The pixel in row `r`, column `c` of the output has the three bytes. -/
def HasPixel (dst : List UInt8) (width r c : Nat) (bytes : List UInt8) : Prop :=
  ∀ k < 3, dst[3 * cellAt width r c + k]? = bytes[k]?

/-- The sizes of the tables. -/
structure Tables.Sized (t : Tables) : Prop where
  crvTab : t.crvTab.length = 256
  cbuTab : t.cbuTab.length = 256
  cguTab : t.cguTab.length = 256
  cgvTab : t.cgvTab.length = 256
  tab76309 : t.tab76309.length = 256
  clp : t.clp.length = 1024

/-- The tables after `InitConvertTable`. -/
structure Tables.Ready (t : Tables) : Prop where
  crvTab : ∀ i : Nat, i < 256 → t.crvTab[i]? = some (((i : Int) - 128) * 104597)
  cbuTab : ∀ i : Nat, i < 256 → t.cbuTab[i]? = some (((i : Int) - 128) * 132201)
  cguTab : ∀ i : Nat, i < 256 → t.cguTab[i]? = some (((i : Int) - 128) * 25675)
  cgvTab : ∀ i : Nat, i < 256 → t.cgvTab[i]? = some (((i : Int) - 128) * 53279)
  tab76309 : ∀ i : Nat, i < 256 → t.tab76309[i]? = some (76309 * ((i : Int) - 16))
  clp : ∀ k : Nat, k < 1024 → t.clp[k]? = some (clampByte ((k : Int) - 384))

-- ============================================================================
-- The tables
-- ============================================================================

section Filling

variable {α : Type}

/-- A block that has been filled from `off` on. -/
theorem store_filled {block : List α} {off i : Nat} {f : Nat → α}
    (h : off + i < block.length) :
    store (splice block off ((List.range i).map f)) (off + i) [f i] =
      .ok (splice block off ((List.range (i + 1)).map f)) := by
  have hlen : ((List.range i).map f).length = i := by rw [List.length_map, List.length_range]
  have hsplice : (splice block off ((List.range i).map f)).length = block.length :=
    splice_length (by omega)
  rw [store_of_le (by rw [hsplice]; exact h), List.range_succ, List.map_append,
    ← splice_append (by rw [List.length_append, hlen]; exact h), hlen]
  rfl

/-- The cells of a block that has been filled. -/
theorem getElem?_filled {block : List α} {off n : Nat} {f : Nat → α}
    (h : off + n ≤ block.length) (k : Nat) :
    (splice block off ((List.range n).map f))[k]? =
      if off ≤ k ∧ k < off + n then some (f (k - off)) else block[k]? := by
  have hlen : ((List.range n).map f).length = n := by rw [List.length_map, List.length_range]
  rw [splice_getElem? (by rw [hlen]; exact h), hlen]
  by_cases hin : off ≤ k ∧ k < off + n
  · have hk : k - off < n := by omega
    rw [if_pos hin, if_pos hin, List.getElem?_map, List.getElem?_range hk]
    rfl
  · rw [if_neg hin, if_neg hin]

theorem fillClp_eq {block : List UInt8} {ind n : Nat} {value : Nat → UInt8}
    (h : ind + n ≤ block.length) :
    runSteps (fillClp ind value) block (List.range n) =
      .ok (splice block ind ((List.range n).map value)) := by
  have hturn : ∀ i clp, i < n → clp = splice block ind ((List.range i).map value) →
      ∃ clp', fillClp ind value clp i = .ok clp' ∧
        clp' = splice block ind ((List.range (i + 1)).map value) := by
    intro i clp hi hclp
    refine ⟨_, ?_, rfl⟩
    rw [hclp, fillClp]
    exact store_filled (by omega)
  obtain ⟨clp, hrun, hclp⟩ := runSteps_range n hturn (splice_nil block ind).symm
  rw [hrun, hclp]

end Filling

/-- The five tables after `i` turns. -/
def Tables.filled (t : Tables) (i : Nat) : Tables :=
  { t with
    crvTab := splice t.crvTab 0 ((List.range i).map fun k : Nat => ((k : Int) - 128) * 104597)
    cbuTab := splice t.cbuTab 0 ((List.range i).map fun k : Nat => ((k : Int) - 128) * 132201)
    cguTab := splice t.cguTab 0 ((List.range i).map fun k : Nat => ((k : Int) - 128) * 25675)
    cgvTab := splice t.cgvTab 0 ((List.range i).map fun k : Nat => ((k : Int) - 128) * 53279)
    tab76309 := splice t.tab76309 0 ((List.range i).map fun k : Nat => 76309 * ((k : Int) - 16)) }

theorem fillTabs_eq {t : Tables} (ht : t.Sized) {i : Nat} (hi : i < 256) :
    fillTabs (t.filled i) i = .ok (t.filled (i + 1)) := by
  have hstore : ∀ (tab : List Int) (f : Nat → Int), tab.length = 256 →
      store (splice tab 0 ((List.range i).map f)) i [f i] =
        .ok (splice tab 0 ((List.range (i + 1)).map f)) := by
    intro tab f htab
    have hfilled := @store_filled _ tab 0 i f (by omega)
    rwa [Nat.zero_add] at hfilled
  have hint : checkInt (76309 * ((i : Int) - 16)) = .ok (76309 * ((i : Int) - 16)) :=
    checkInt_of_le (by omega) (by simp only [intMax]; omega)
  have hcrv := hstore t.crvTab (fun k => ((k : Int) - 128) * 104597) ht.crvTab
  have hcbu := hstore t.cbuTab (fun k => ((k : Int) - 128) * 132201) ht.cbuTab
  have hcgu := hstore t.cguTab (fun k => ((k : Int) - 128) * 25675) ht.cguTab
  have hcgv := hstore t.cgvTab (fun k => ((k : Int) - 128) * 53279) ht.cgvTab
  have hy := hstore t.tab76309 (fun k => 76309 * ((k : Int) - 16)) ht.tab76309
  simp only [fillTabs, Tables.filled, bind, Except.bind, hint, hcrv, hcbu, hcgu, hcgv, hy]

theorem filled_zero (t : Tables) : t.filled 0 = t := by
  simp [Tables.filled]

theorem fillTabs_loop {t : Tables} (ht : t.Sized) {n : Nat} (hn : n ≤ 256) :
    runSteps fillTabs t (List.range n) = .ok (t.filled n) := by
  have hturn : ∀ i s, i < n → s = t.filled i →
      ∃ s', fillTabs s i = .ok s' ∧ s' = t.filled (i + 1) := by
    intro i s hi hs
    refine ⟨_, ?_, rfl⟩
    rw [hs]
    exact fillTabs_eq ht (Nat.lt_of_lt_of_le hi hn)
  obtain ⟨s, hrun, hs⟩ := runSteps_range n hturn (filled_zero t).symm
  rw [hrun, hs]

/-- The three loops over `clp`. -/
theorem clp_loops {clp : List UInt8} (hlen : clp.length = 1024) :
    ∃ low mid high, runSteps (fillClp 0 fun _ => 0) clp (List.range 384) = .ok low ∧
      runSteps (fillClp 384 fun i => UInt8.ofNat i) low (List.range 256) = .ok mid ∧
      runSteps (fillClp 640 fun _ => 255) mid (List.range 384) = .ok high ∧
      ∀ k : Nat, k < 1024 → high[k]? = some (clampByte ((k : Int) - 384)) := by
  have hlow := @fillClp_eq clp 0 384 (fun _ => 0) (by omega)
  have hlow? := @getElem?_filled _ clp 0 384 (fun _ => (0 : UInt8)) (by omega)
  have hlowLen : (splice clp 0 ((List.range 384).map fun _ => (0 : UInt8))).length = 1024 := by
    rw [splice_length (by rw [List.length_map, List.length_range]; omega), hlen]
  generalize splice clp 0 ((List.range 384).map fun _ => (0 : UInt8)) = low at hlow hlow? hlowLen
  have hmid := @fillClp_eq low 384 256 (fun i => UInt8.ofNat i) (by omega)
  have hmid? := @getElem?_filled _ low 384 256 (fun i => UInt8.ofNat i) (by omega)
  have hmidLen : (splice low 384 ((List.range 256).map fun i => UInt8.ofNat i)).length = 1024 := by
    rw [splice_length (by rw [List.length_map, List.length_range]; omega), hlowLen]
  generalize splice low 384 ((List.range 256).map fun i => UInt8.ofNat i) = mid
    at hmid hmid? hmidLen
  have hhigh := @fillClp_eq mid 640 384 (fun _ => 255) (by omega)
  have hhigh? := @getElem?_filled _ mid 640 384 (fun _ => (255 : UInt8)) (by omega)
  refine ⟨low, mid, _, hlow, hmid, hhigh, fun k hk => ?_⟩
  rw [hhigh?, hmid?, hlow?]
  by_cases hlast : 640 ≤ k
  · rw [if_pos (by omega), clampByte, min_eq_left (by omega)]
    rfl
  · rw [if_neg (by omega)]
    by_cases hfirst : 384 ≤ k
    · have hnat : ((k : Int) - 384).toNat = k - 384 := by omega
      rw [if_pos (by omega), clampByte, min_eq_right (by omega), max_eq_right (by omega), hnat]
    · rw [if_neg (by omega), if_pos (by omega), clampByte, min_eq_right (by omega),
        max_eq_left (by omega)]
      rfl

theorem filled_ready {t : Tables} (ht : t.Sized) {high : List UInt8}
    (hclp : ∀ k : Nat, k < 1024 → high[k]? = some (clampByte ((k : Int) - 384))) :
    Tables.Ready { t.filled 256 with clp := high } := by
  have htab : ∀ (tab : List Int) (f : Nat → Int), tab.length = 256 → ∀ i : Nat, i < 256 →
      (splice tab 0 ((List.range 256).map f))[i]? = some (f i) := by
    intro tab f htab i hi
    rw [getElem?_filled (by omega), if_pos (by omega), Nat.sub_zero]
  exact ⟨htab _ _ ht.crvTab, htab _ _ ht.cbuTab, htab _ _ ht.cguTab, htab _ _ ht.cgvTab,
    htab _ _ ht.tab76309, hclp⟩

/-- `InitConvertTable` fills the tables, whatever they hold. -/
theorem initConvertTable_eq {t : Tables} (ht : t.Sized) :
    ∃ t', initConvertTable t = .ok t' ∧ t'.Ready := by
  obtain ⟨low, mid, high, hlow, hmid, hhigh, hclp⟩ := clp_loops ht.clp
  refine ⟨{ t.filled 256 with clp := high }, ?_, filled_ready ht hclp⟩
  have hclp' : (t.filled 256).clp = t.clp := rfl
  simp only [initConvertTable, bind, Except.bind, fillTabs_loop ht (Nat.le_refl 256), hclp', hlow,
    hmid, hhigh]

theorem sized_zero : Tables.zero.Sized := by
  have htab : (List.replicate 256 (0 : Int)).length = 256 := List.length_replicate
  have hclp : (List.replicate 1024 (0 : UInt8)).length = 1024 := List.length_replicate
  exact ⟨htab, htab, htab, htab, htab, hclp⟩

-- ============================================================================
-- One pixel
-- ============================================================================

section Pixels

variable {t : Tables} {dst : List UInt8} {d : Nat}

/-- The sums stay inside `clp`. -/
theorem clip_eq (ht : t.Ready) {x : Int} (hlow : -384 * 65536 ≤ x) (hhigh : x < 640 * 65536) :
    t.clip x = .ok (clampByte (x >>> (16 : Nat))) := by
  have hshift : x >>> (16 : Nat) = x / 65536 := Int.shiftRight_eq_div_pow x 16
  have hindex : ((384 + x / 65536).toNat : Int) = 384 + x / 65536 := Int.toNat_of_nonneg (by omega)
  have hclp := ht.clp (384 + x / 65536).toNat (by omega)
  rw [hindex, add_sub_cancel_left] at hclp
  rw [Tables.clip, hshift, checkInt_of_le (by omega) (by simp only [intMax]; omega)]
  show (if 384 + x / 65536 < 0 then Except.error Fault.read else load t.clp _) = _
  rw [if_neg (by omega), load_eq_ok hclp]

/-- Three bytes stored one after the other. -/
theorem store_three (hd : d + 3 ≤ dst.length) (r g b : UInt8) :
    (do
      let dst ← store dst d [r]
      let dst ← store dst (d + 1) [g]
      store dst (d + 2) [b]) = .ok (splice dst d [r, g, b]) := by
  have hone : (splice dst d [r]).length = dst.length := splice_length (by simp; omega)
  have htwo : (splice dst d [r, g]).length = dst.length := splice_length (by simp; omega)
  have hg : splice (splice dst d [r]) (d + 1) [g] = splice dst d [r, g] :=
    @splice_append _ dst [r] [g] d (by simp; omega)
  have hb : splice (splice dst d [r, g]) (d + 2) [b] = splice dst d [r, g, b] :=
    @splice_append _ dst [r, g] [b] d (by simp; omega)
  simp only [bind, Except.bind]
  rw [store_of_le (by simp; omega)]
  dsimp only
  rw [store_of_le (by simp; omega), hg]
  dsimp only
  rw [store_of_le (by simp; omega), hb]

/-- The bytes that a pixel gets. -/
theorem putPixel_eq (ht : t.Ready) (hd : d + 3 ≤ dst.length) (y u v : UInt8) :
    t.putPixel dst d (76309 * ((y.toNat : Int) - 16)) (((v.toNat : Int) - 128) * 104597)
        (((u.toNat : Int) - 128) * 25675) (((v.toNat : Int) - 128) * 53279)
        (((u.toNat : Int) - 128) * 132201) = .ok (splice dst d (rgb y u v)) := by
  have hy := y.toNat_lt
  have hu := u.toNat_lt
  have hv := v.toNat_lt
  rw [rgb, red, green, blue, Int.mul_comm 104597, Int.mul_comm 25675, Int.mul_comm 53279,
    Int.mul_comm 132201]
  generalize hY : 76309 * ((y.toNat : Int) - 16) = Y
  generalize hc1 : ((v.toNat : Int) - 128) * 104597 = c1
  generalize hc2 : ((u.toNat : Int) - 128) * 25675 = c2
  generalize hc3 : ((v.toNat : Int) - 128) * 53279 = c3
  generalize hc4 : ((u.toNat : Int) - 128) * 132201 = c4
  have hmax : (intMax : Int) = 2147483647 := rfl
  have hred := clip_eq ht (show -384 * 65536 ≤ Y + c1 by omega) (by omega)
  have hgreen := clip_eq ht (show -384 * 65536 ≤ Y - c2 - c3 by omega) (by omega)
  have hblue := clip_eq ht (show -384 * 65536 ≤ Y + c4 by omega) (by omega)
  have hred' : checkInt (Y + c1) = .ok (Y + c1) := checkInt_of_le (by omega) (by omega)
  have hdiff : checkInt (Y - c2) = .ok (Y - c2) := checkInt_of_le (by omega) (by omega)
  have hgreen' : checkInt (Y - c2 - c3) = .ok (Y - c2 - c3) :=
    checkInt_of_le (by omega) (by omega)
  have hblue' : checkInt (Y + c4) = .ok (Y + c4) := checkInt_of_le (by omega) (by omega)
  generalize clampByte ((Y + c1) >>> (16 : Nat)) = r at *
  generalize clampByte ((Y - c2 - c3) >>> (16 : Nat)) = g at *
  generalize clampByte ((Y + c4) >>> (16 : Nat)) = b at *
  simp only [Tables.putPixel, bind, Except.bind, hred', hred, hdiff, hgreen', hgreen, hblue', hblue]
  exact store_three hd r g b

/-- A pixel is read back where it was stored. -/
theorem hasPixel_splice_self {width r c : Nat} {bytes : List UInt8} (hbytes : bytes.length = 3)
    (hfit : 3 * cellAt width r c + 3 ≤ dst.length) :
    HasPixel (splice dst (3 * cellAt width r c) bytes) width r c bytes := by
  intro k hk
  rw [splice_getElem? (by omega), if_pos (by omega), Nat.add_sub_cancel_left]

/-- The other pixels stay. -/
theorem HasPixel.splice {width r c r' c' : Nat} {bytes old : List UInt8}
    (h : HasPixel dst width r' c' old) (hbytes : bytes.length = 3)
    (hfit : 3 * cellAt width r c + 3 ≤ dst.length) (hne : cellAt width r' c' ≠ cellAt width r c) :
    HasPixel (splice dst (3 * cellAt width r c) bytes) width r' c' old := by
  intro k hk
  rw [splice_getElem? (by omega), if_neg (by omega)]
  exact h k hk

end Pixels

-- ============================================================================
-- The walk
-- ============================================================================

/-- The pixels with `P` have their colours. -/
def Painted {width height : Nat} (img : Image width height) (dst : List UInt8)
    (P : Nat → Nat → Prop) : Prop :=
  ∀ r c, r < height → c < width → P r c → HasPixel dst width r c (img.pixel r c)

/-- The blocks before column block `C` of row block `R`. -/
def Before (R C r c : Nat) : Prop := r / 2 < R ∨ r / 2 = R ∧ c / 2 < C

/-- The running pointers stand at block `C` of row block `R`, and the blocks before are done. -/
structure Walking {width height : Nat} (img : Image width height) (dst₀ : List UInt8) (R C : Nat)
    (w : Walk) : Prop where
  py1 : w.py1 = img.y.add (cellAt width (2 * R) (2 * C))
  py2 : w.py2 = img.y.add (cellAt width (2 * R + 1) (2 * C))
  src1 : w.src1 = img.u.add (cellAt (width / 2) R C)
  src2 : w.src2 = img.v.add (cellAt (width / 2) R C)
  d1 : w.d1 = 3 * cellAt width (2 * R) (2 * C)
  d2 : w.d2 = 3 * cellAt width (2 * R + 1) (2 * C)
  length : w.dst.length = dst₀.length
  done : Painted img w.dst (Before R C)
  rest : ∀ k : Nat, 3 * (height * width) ≤ k → w.dst[k]? = dst₀[k]?

section Walks

variable {t : Tables} {width height R C r c : Nat} {img : Image width height}
  {dst dst₀ : List UInt8} {P : Nat → Nat → Prop} {w : Walk}

theorem Pointer.add_add (p : Pointer) (m n : Nat) : (p.add m).add n = p.add (m + n) := by
  rw [Pointer.add, Pointer.add, Pointer.add, Nat.add_assoc]

theorem Pointer.read_add {p : Pointer} {stride : Nat} (h : p.off + cellAt stride r c < p.block.length) :
    (p.add (cellAt stride r c)).read = .ok (p.plane stride r c) := by
  rw [Pointer.read, Pointer.add, Pointer.plane, List.getD_eq_getElem?_getD,
    List.getElem?_eq_getElem h]
  exact load_of_lt h

theorem Image.read_y (img : Image width height) (hr : r < height) (hc : c < width) :
    (img.y.add (cellAt width r c)).read = .ok (img.y.plane width r c) := by
  have hlt := cellAt_lt_of_lt hr hc
  have hfits := img.y_fits
  exact Pointer.read_add (by omega)

theorem Image.read_u (img : Image width height) (hr : R < height / 2) (hc : C < width / 2) :
    (img.u.add (cellAt (width / 2) R C)).read = .ok (img.u.plane (width / 2) R C) := by
  have hlt := cellAt_lt_of_lt hr hc
  have hfits := img.u_fits
  exact Pointer.read_add (by omega)

theorem Image.read_v (img : Image width height) (hr : R < height / 2) (hc : C < width / 2) :
    (img.v.add (cellAt (width / 2) R C)).read = .ok (img.v.plane (width / 2) R C) := by
  have hlt := cellAt_lt_of_lt hr hc
  have hfits := img.v_fits
  exact Pointer.read_add (by omega)

theorem Image.length_pixel (img : Image width height) (r c : Nat) : (img.pixel r c).length = 3 := rfl

/-- The output with one pixel more. -/
def Image.put (img : Image width height) (dst : List UInt8) (r c : Nat) : List UInt8 :=
  splice dst (3 * cellAt width r c) (img.pixel r c)

theorem Painted.put (h : Painted img dst P) (hr : r < height) (hc : c < width)
    (hfit : 3 * (height * width) ≤ dst.length) :
    Painted img (img.put dst r c) fun r' c' => P r' c' ∨ r' = r ∧ c' = c := by
  have hlt := cellAt_lt_of_lt hr hc
  intro r' c' hr' hc' hP
  by_cases hsame : r' = r ∧ c' = c
  · obtain ⟨rfl, rfl⟩ := hsame
    exact hasPixel_splice_self (img.length_pixel r' c') (by omega)
  · have hold : P r' c' := hP.resolve_right hsame
    apply (h r' c' hr' hc' hold).splice (img.length_pixel r c) (by omega)
    intro heq
    exact hsame ((cellAt_inj hc' hc).mp heq)

/-- A `long` of the tables that is assigned to an `int`. -/
theorem Tables.Ready.lookup (ht : t.Ready) (b : UInt8) :
    (load t.crvTab b.toNat = .ok (((b.toNat : Int) - 128) * 104597) ∧
      load t.cbuTab b.toNat = .ok (((b.toNat : Int) - 128) * 132201) ∧
      load t.cguTab b.toNat = .ok (((b.toNat : Int) - 128) * 25675) ∧
      load t.cgvTab b.toNat = .ok (((b.toNat : Int) - 128) * 53279) ∧
      load t.tab76309 b.toNat = .ok (76309 * ((b.toNat : Int) - 16))) ∧
    checkInt (((b.toNat : Int) - 128) * 104597) = .ok (((b.toNat : Int) - 128) * 104597) ∧
      checkInt (((b.toNat : Int) - 128) * 132201) = .ok (((b.toNat : Int) - 128) * 132201) ∧
      checkInt (((b.toNat : Int) - 128) * 25675) = .ok (((b.toNat : Int) - 128) * 25675) ∧
      checkInt (((b.toNat : Int) - 128) * 53279) = .ok (((b.toNat : Int) - 128) * 53279) ∧
      checkInt (76309 * ((b.toNat : Int) - 16)) = .ok (76309 * ((b.toNat : Int) - 16)) := by
  have hb := b.toNat_lt
  have hmax : (intMax : Int) = 2147483647 := rfl
  refine ⟨⟨load_eq_ok (ht.crvTab _ hb), load_eq_ok (ht.cbuTab _ hb), load_eq_ok (ht.cguTab _ hb),
    load_eq_ok (ht.cgvTab _ hb), load_eq_ok (ht.tab76309 _ hb)⟩, ?_, ?_, ?_, ?_, ?_⟩
  all_goals exact checkInt_of_le (by omega) (by omega)

/-- The colour of a pixel in block `C` of row block `R` is stored. -/
theorem putPixel_image (ht : t.Ready) (img : Image width height) (hr : r < height) (hc : c < width)
    (hR : r / 2 = R) (hC : c / 2 = C) (hfit : 3 * (height * width) ≤ dst.length) :
    t.putPixel dst (3 * cellAt width r c)
        (76309 * (((img.y.plane width r c).toNat : Int) - 16))
        ((((img.v.plane (width / 2) R C).toNat : Int) - 128) * 104597)
        ((((img.u.plane (width / 2) R C).toNat : Int) - 128) * 25675)
        ((((img.v.plane (width / 2) R C).toNat : Int) - 128) * 53279)
        ((((img.u.plane (width / 2) R C).toNat : Int) - 128) * 132201) =
      .ok (img.put dst r c) := by
  have hlt := cellAt_lt_of_lt hr hc
  rw [putPixel_eq ht (by omega), Image.put, Image.pixel, hR, hC]

theorem Image.length_put (img : Image width height) (hr : r < height) (hc : c < width)
    (hfit : 3 * (height * width) ≤ dst.length) : (img.put dst r c).length = dst.length := by
  have hlt := cellAt_lt_of_lt hr hc
  apply splice_length
  rw [img.length_pixel]
  omega

theorem Image.fits_put (img : Image width height) (hr : r < height) (hc : c < width)
    (hfit : 3 * (height * width) ≤ dst.length) :
    3 * (height * width) ≤ (img.put dst r c).length := by
  rw [img.length_put hr hc hfit]
  exact hfit

/-- Nothing behind the picture is touched. -/
theorem Image.getElem?_put (img : Image width height) (hr : r < height) (hc : c < width)
    (hfit : 3 * (height * width) ≤ dst.length) {k : Nat} (hk : 3 * (height * width) ≤ k) :
    (img.put dst r c)[k]? = dst[k]? := by
  have hlt := cellAt_lt_of_lt hr hc
  have hlen := img.length_pixel r c
  rw [Image.put, splice_getElem? (by omega), if_neg (by omega)]

/-- The four stores of a turn. -/
def Image.paintBlock (img : Image width height) (dst : List UInt8) (R C : Nat) : List UInt8 :=
  img.put (img.put (img.put (img.put dst (2 * R) (2 * C)) (2 * R + 1) (2 * C)) (2 * R) (2 * C + 1))
    (2 * R + 1) (2 * C + 1)

/-- A turn of the inner loop paints a block. -/
theorem turn_eq (ht : t.Ready) (h : Walking img dst₀ R C w)
    (hfit : 3 * (height * width) ≤ dst₀.length) (hR : 2 * R + 1 < height) (hC : 2 * C + 1 < width) :
    t.turn w = .ok
      { py1 := w.py1.add 2, py2 := w.py2.add 2, src1 := w.src1.add 1, src2 := w.src2.add 1
        d1 := w.d1 + 6, d2 := w.d2 + 6, dst := img.paintBlock w.dst R C } := by
  have hR₀ : 2 * R < height := by omega
  have hC₀ : 2 * C < width := by omega
  have hu := img.read_u (show R < height / 2 by omega) (show C < width / 2 by omega)
  have hv := img.read_v (show R < height / 2 by omega) (show C < width / 2 by omega)
  have hright : ∀ r, (img.y.add (cellAt width r (2 * C))).add 1 =
      img.y.add (cellAt width r (2 * C + 1)) := fun r => Pointer.add_add ..
  have hnext : ∀ r, 3 * cellAt width r (2 * C) + 3 = 3 * cellAt width r (2 * C + 1) := fun r => by
    rw [cellAt, cellAt]
    omega
  rw [← h.length] at hfit
  -- The four stores, one after the other into the block that the last one left.
  have hfit₁ := img.fits_put hR₀ hC₀ hfit
  have hfit₂ := img.fits_put hR hC₀ hfit₁
  have hfit₃ := img.fits_put hR₀ hC hfit₂
  have hput₁ := putPixel_image ht img hR₀ hC₀ (show _ = R by omega) (show _ = C by omega) hfit
  have hput₂ := putPixel_image ht img hR hC₀ (show _ = R by omega) (show _ = C by omega) hfit₁
  have hput₃ := putPixel_image ht img hR₀ hC (show _ = R by omega) (show _ = C by omega) hfit₂
  have hput₄ := putPixel_image ht img hR hC (show _ = R by omega) (show _ = C by omega) hfit₃
  simp only [Tables.turn, bind, Except.bind, h.src1, h.src2, h.py1, h.py2, h.d1, h.d2, hu, hv, hright,
    hnext, img.read_y hR₀ hC₀, img.read_y hR hC₀, img.read_y hR₀ hC, img.read_y hR hC, ht.lookup,
    hput₁, hput₂, hput₃, hput₄]
  rfl

/-- What a turn does to the output. -/
theorem paintBlock_spec (img : Image width height) (hR : 2 * R + 1 < height)
    (hC : 2 * C + 1 < width) (hfit : 3 * (height * width) ≤ dst.length) :
    (img.paintBlock dst R C).length = dst.length ∧
      (Painted img dst (Before R C) → Painted img (img.paintBlock dst R C) (Before R (C + 1))) ∧
      ∀ k : Nat, 3 * (height * width) ≤ k → (img.paintBlock dst R C)[k]? = dst[k]? := by
  have hR₀ : 2 * R < height := by omega
  have hC₀ : 2 * C < width := by omega
  have hfit₁ := img.fits_put hR₀ hC₀ hfit
  have hfit₂ := img.fits_put hR hC₀ hfit₁
  have hfit₃ := img.fits_put hR₀ hC hfit₂
  refine ⟨?_, fun hdone r c hr hc hbefore => ?_, fun k hk => ?_⟩
  · rw [Image.paintBlock, img.length_put hR hC hfit₃, img.length_put hR₀ hC hfit₂,
      img.length_put hR hC₀ hfit₁, img.length_put hR₀ hC₀ hfit]
  · have hall := (((hdone.put hR₀ hC₀ hfit).put hR hC₀ hfit₁).put hR₀ hC hfit₂).put hR hC hfit₃
    apply hall r c hr hc
    rw [Before] at hbefore ⊢
    omega
  · rw [Image.paintBlock, img.getElem?_put hR hC hfit₃ hk, img.getElem?_put hR₀ hC hfit₂ hk,
      img.getElem?_put hR hC₀ hfit₁ hk, img.getElem?_put hR₀ hC₀ hfit hk]

/-- The step lemma of the inner loop. -/
theorem Walking.turn (ht : t.Ready) (h : Walking img dst₀ R C w)
    (hfit : 3 * (height * width) ≤ dst₀.length) (hR : 2 * R + 1 < height) (hC : 2 * C + 1 < width) :
    ∃ w', t.turn w = .ok w' ∧ Walking img dst₀ R (C + 1) w' := by
  have hfit' : 3 * (height * width) ≤ w.dst.length := h.length ▸ hfit
  obtain ⟨hlength, hdone, hrest⟩ := paintBlock_spec img hR hC hfit'
  refine ⟨_, turn_eq ht h hfit hR hC, ?_⟩
  constructor
  case py1 => rw [h.py1, Pointer.add_add]; rfl
  case py2 => rw [h.py2, Pointer.add_add]; rfl
  case src1 => rw [h.src1, Pointer.add_add]; rfl
  case src2 => rw [h.src2, Pointer.add_add]; rfl
  case d1 =>
    dsimp only
    rw [h.d1, cellAt, cellAt]
    omega
  case d2 =>
    dsimp only
    rw [h.d2, cellAt, cellAt]
    omega
  case length => exact hlength.trans h.length
  case done => exact hdone h.done
  case rest =>
    intro k hk
    exact (hrest k hk).trans (h.rest k hk)

/-- Behind the last column the pointers skip the row below. -/
theorem cellAt_skip (width r : Nat) : cellAt width r width + width = cellAt width (r + 2) 0 := by
  rw [cellAt, cellAt, Nat.add_mul]
  omega

/-- The step lemma of the outer loop. -/
theorem Walking.rows (ht : t.Ready) (h : Walking img dst₀ R 0 w)
    (hfit : 3 * (height * width) ≤ dst₀.length) (hR : 2 * R + 1 < height)
    (heven : width = 2 * (width / 2)) (hwidth : 3 * width ≤ intMax) :
    ∃ w', t.rows width w = .ok w' ∧ Walking img dst₀ (R + 1) 0 w' := by
  obtain ⟨w', hrun, hw'⟩ := forBy_ends (m := width / 2) Nat.two_pos (by omega)
    (fun C w hC (hw : Walking img dst₀ R C w) => hw.turn ht hfit hR (by omega)) h
  rw [← heven] at hrun
  have hskip : checkInt (3 * (width : Int)) = .ok (3 * (width : Int)) :=
    checkInt_of_le (by omega) (by omega)
  have hnat : (3 * (width : Int)).toNat = 3 * width := by omega
  simp only [Tables.rows, bind, Except.bind, hrun, hskip, hnat]
  refine ⟨_, rfl, ?_⟩
  constructor
  case py1 =>
    dsimp only
    rw [hw'.py1, Pointer.add_add, ← heven, cellAt_skip]
    rfl
  case py2 =>
    dsimp only
    rw [hw'.py2, Pointer.add_add, ← heven, cellAt_skip]
    rfl
  case src1 =>
    dsimp only
    rw [hw'.src1, cellAt, cellAt, Nat.succ_mul, Nat.add_zero]
  case src2 =>
    dsimp only
    rw [hw'.src2, cellAt, cellAt, Nat.succ_mul, Nat.add_zero]
  case d1 =>
    dsimp only
    rw [hw'.d1, ← heven, ← Nat.mul_add, cellAt_skip]
    rfl
  case d2 =>
    dsimp only
    rw [hw'.d2, ← heven, ← Nat.mul_add, cellAt_skip]
    rfl
  case length => exact hw'.length
  case done =>
    intro r c hr hc hbefore
    apply hw'.done r c hr hc
    rw [Before] at hbefore ⊢
    omega
  case rest => exact hw'.rest

theorem walking_start (img : Image width height) (dst₀ : List UInt8) :
    Walking img dst₀ 0 0
      { py1 := img.y, py2 := img.y.add width, src1 := img.u, src2 := img.v, d1 := 0
        d2 := 3 * width, dst := dst₀ } := by
  have hstart : ∀ stride, cellAt stride 0 0 = 0 := fun stride => Nat.zero_mul stride
  have hsecond : cellAt width 1 0 = width := Nat.one_mul width
  constructor
  case py1 => rw [Nat.mul_zero, hstart]; rfl
  case py2 => rw [Nat.mul_zero, hsecond]
  case src1 => rw [hstart]; rfl
  case src2 => rw [hstart]; rfl
  case d1 => rw [Nat.mul_zero, hstart]
  case d2 => rw [Nat.mul_zero, hsecond]
  case length => rfl
  case done =>
    intro r c _ _ hbefore
    rw [Before] at hbefore
    omega
  case rest => exact fun _ _ => rfl

end Walks

-- ============================================================================
-- The picture
-- ============================================================================

/-- With the tables ready, `ConvertYUV2RGB` paints every pixel. -/
theorem convertYUV2RGB_painted {t : Tables} (ht : t.Ready) {width height : Nat}
    (hw : width % 2 = 0) (hh : height % 2 = 0) (hwidth : 3 * width ≤ intMax)
    (hheight : height ≤ intMax) (img : Image width height) {dst : List UInt8}
    (hfit : 3 * (height * width) ≤ dst.length) :
    ∃ out, t.convertYUV2RGB img.y img.u img.v dst width height = .ok out ∧
      out.length = dst.length ∧
      (∀ r < height, ∀ c < width, HasPixel out width r c (img.pixel r c)) ∧
      ∀ k : Nat, 3 * (height * width) ≤ k → out[k]? = dst[k]? := by
  obtain ⟨w, hrun, hwalk⟩ := forBy_ends (m := height / 2) Nat.two_pos (by omega)
    (fun R w hR (h : Walking img dst R 0 w) => h.rows ht hfit (by omega) (by omega) hwidth)
    (walking_start img dst)
  rw [show 2 * (height / 2) = height by omega] at hrun
  have hskip : checkInt (3 * (width : Int)) = .ok (3 * (width : Int)) :=
    checkInt_of_le (by omega) (by omega)
  have hnat : (3 * (width : Int)).toNat = 3 * width := by omega
  refine ⟨w.dst, ?_, hwalk.length, ?_, hwalk.rest⟩
  · simp only [Tables.convertYUV2RGB, bind, Except.bind, hskip, hnat, hrun]
  · intro r hr c hc
    apply hwalk.done r c hr hc
    rw [Before]
    omega

/-- For every even width and height for which `3 * width` is an `int`, after `InitConvertTable`,
    `ConvertYUV2RGB` writes the three bytes of every pixel and nothing else; no index leaves `clp`
    and no `int` overflows. -/
theorem convertYUV2RGB_colours {width height : Nat} (hw : width % 2 = 0) (hh : height % 2 = 0)
    (hwidth : 3 * width ≤ intMax) (hheight : height ≤ intMax) (img : Image width height)
    {dst : List UInt8} (hfit : 3 * (height * width) ≤ dst.length) :
    ∃ t out, initConvertTable .zero = .ok t ∧
      t.convertYUV2RGB img.y img.u img.v dst width height = .ok out ∧
      out.length = dst.length ∧
      (∀ r < height, ∀ c < width,
        let y := img.y.plane width r c
        let u := img.u.plane (width / 2) (r / 2) (c / 2)
        let v := img.v.plane (width / 2) (r / 2) (c / 2)
        out[3 * (r * width + c)]? = some (red y v) ∧
          out[3 * (r * width + c) + 1]? = some (green y u v) ∧
          out[3 * (r * width + c) + 2]? = some (blue y u)) ∧
      ∀ k : Nat, 3 * (height * width) ≤ k → out[k]? = dst[k]? := by
  obtain ⟨t, hinit, ht⟩ := initConvertTable_eq sized_zero
  obtain ⟨out, hrun, hlength, hpixels, hrest⟩ :=
    convertYUV2RGB_painted ht hw hh hwidth hheight img hfit
  refine ⟨t, out, hinit, hrun, hlength, fun r hr c hc => ?_, hrest⟩
  have hpixel := hpixels r hr c hc
  exact ⟨hpixel 0 (by omega), hpixel 1 (by omega), hpixel 2 (by omega)⟩

/-- Sixteen pixels with four pairs of U and V. -/
def chromaImage : Image 4 4 :=
  { y := ⟨[200, 40, 100, 180, 60, 235, 50, 126, 16, 90, 110, 140, 100, 75, 160, 60], 0⟩
    u := ⟨[90, 16, 240, 128], 0⟩, v := ⟨[90, 128, 110, 240], 0⟩
    y_fits := Nat.le_refl 16, u_fits := Nat.le_refl 4, v_fits := Nat.le_refl 4 }

/-- A byte of each corner, every one with its own U and V. -/
theorem convertYUV2RGB_chromaImage :
    ∃ t out, initConvertTable .zero = .ok t ∧
      t.convertYUV2RGB chromaImage.y chromaImage.u chromaImage.v (List.replicate 48 0) 4 4 = .ok out ∧
      out[0]? = some 153 ∧ out[11]? = some 0 ∧ out[37]? = some 68 ∧ out[45]? = some 229 := by
  obtain ⟨t, out, hinit, hrun, -, hpixels, -⟩ := @convertYUV2RGB_colours 4 4 rfl rfl
    (by decide) (by decide) chromaImage (List.replicate 48 0) (by decide)
  exact ⟨t, out, hinit, hrun, (hpixels 0 (by omega) 0 (by omega)).1,
    (hpixels 0 (by omega) 3 (by omega)).2.2, (hpixels 3 (by omega) 0 (by omega)).2.1,
    (hpixels 3 (by omega) 3 (by omega)).1⟩

/-- Two rows that are too wide for `3 * width`. -/
def wideImage : Image (2 ^ 30) 2 :=
  { y := ⟨List.replicate (2 * 2 ^ 30) 0, 0⟩
    u := ⟨List.replicate (2 / 2 * (2 ^ 30 / 2)) 0, 0⟩
    v := ⟨List.replicate (2 / 2 * (2 ^ 30 / 2)) 0, 0⟩
    y_fits := by rw [List.length_replicate, Nat.zero_add]
    u_fits := by rw [List.length_replicate, Nat.zero_add]
    v_fits := by rw [List.length_replicate, Nat.zero_add] }

/-- `3 * width` overflows. -/
theorem not_ok_wideImage :
    ¬ ∃ t out, initConvertTable .zero = .ok t ∧
      t.convertYUV2RGB wideImage.y wideImage.u wideImage.v (List.replicate (3 * (2 * 2 ^ 30)) 0)
        (2 ^ 30) 2 = .ok out := by
  rintro ⟨t, out, -, hrun⟩
  have hskip : checkInt (3 * ((2 ^ 30 : Nat) : Int)) = .error .overflow := if_neg (by decide)
  simp only [Tables.convertYUV2RGB, bind, Except.bind, hskip] at hrun
  cases hrun

end LinuxCodeDemos.NailPrinter

/-
  LinuxCodeDemos.TcpFile.Burst

  The checksum of `socket/tcp_00/crc.h` as a shift register.

  The two tables hold what eight shifts of a register of 16 bits with taps
  0xA001 do to its low byte, so `crc16` is the register after the bits of the
  block, the low bit of each byte first (`register_crcOf`).  A sealed message
  clears the register, and a burst of at most 16 bits that is not zero is always
  seen (`crcOf_burst`).
-/

import Mathlib.Data.List.GetD
import LinuxCodeDemos.Lib.Lfsr
import LinuxCodeDemos.TcpFile.Transfer

namespace LinuxCodeDemos.TcpFile

open Lib

-- ============================================================================
-- Definitions
-- ============================================================================

/-- The bits of a byte, the low one first. -/
def byteBits (b : UInt8) : List Bool := (List.range 8).map b.toBitVec.getLsbD

/-- The bits of a block in the order of transmission. -/
def bitsOf (bs : List UInt8) : List Bool := bs.flatMap byteBits

def crcTaps : BitVec 16 := 0xA001#16

/-- The register that the two bytes of `crc16` stand for: `uchCRCHi` is its low byte. -/
def register (crc : UInt8 × UInt8) : BitVec 16 := crc.2.toBitVec ++ crc.1.toBitVec

/-- A block with the bits of `error` flipped. -/
def xorBytes (bs error : List UInt8) : List UInt8 := List.zipWith (· ^^^ ·) bs error

/-- The ones of an error are at most 16 bits apart, and there is one. -/
def IsBurst (error : List UInt8) : Prop :=
  ∃ m n burst, bitsOf error = List.replicate m false ++ (burst ++ List.replicate n false) ∧
    burst.length ≤ 16 ∧ true ∈ burst

-- ============================================================================
-- Bits of blocks
-- ============================================================================

@[simp] theorem byteBits_length (b : UInt8) : (byteBits b).length = 8 := by
  rw [byteBits, List.length_map, List.length_range]

theorem bitsOf_cons (b : UInt8) (bs : List UInt8) : bitsOf (b :: bs) = byteBits b ++ bitsOf bs :=
  List.flatMap_cons

theorem bitsOf_append (as bs : List UInt8) : bitsOf (as ++ bs) = bitsOf as ++ bitsOf bs :=
  List.flatMap_append

theorem bitsOf_length (bs : List UInt8) : (bitsOf bs).length = 8 * bs.length := by
  induction bs with
  | nil => rfl
  | cons b bs ih =>
      rw [bitsOf_cons, List.length_append, byteBits_length, ih, List.length_cons]
      omega

theorem byteBits_xor (a b : UInt8) :
    byteBits (a ^^^ b) = List.zipWith xor (byteBits a) (byteBits b) := by
  rw [byteBits, byteBits, byteBits, List.zipWith_map, List.zipWith_self, UInt8.toBitVec_xor]
  apply List.map_congr_left
  intro i _
  rw [BitVec.getLsbD_xor]

theorem bitsOf_xorBytes {bs error : List UInt8} (hlen : error.length = bs.length) :
    bitsOf (xorBytes bs error) = List.zipWith xor (bitsOf bs) (bitsOf error) := by
  induction bs generalizing error with
  | nil => rfl
  | cons b bs ih =>
      cases error with
      | nil => cases hlen
      | cons e error =>
          have htail := ih (Nat.succ.inj hlen)
          rw [xorBytes, List.zipWith_cons_cons, bitsOf_cons, byteBits_xor, bitsOf_cons, bitsOf_cons,
            List.zipWith_append (by rw [byteBits_length, byteBits_length]), ← htail]
          rfl

theorem xorBytes_length {bs error : List UInt8} (hlen : error.length = bs.length) :
    (xorBytes bs error).length = bs.length := by
  rw [xorBytes, List.length_zipWith, hlen, Nat.min_self]

theorem getD_xorBytes {bs error : List UInt8} (hlen : error.length = bs.length) (i : Nat) :
    (xorBytes bs error).getD i 0 = bs.getD i 0 ^^^ error.getD i 0 := by
  by_cases hi : i < bs.length
  · rw [xorBytes, List.getD_eq_getElem?_getD, List.getElem?_zipWith,
      List.getD_eq_getElem?_getD, List.getD_eq_getElem?_getD, List.getElem?_eq_getElem hi,
      List.getElem?_eq_getElem (hlen ▸ hi)]
    rfl
  · rw [List.getD_eq_default _ _ (by rw [xorBytes_length hlen]; omega),
      List.getD_eq_default _ _ (by omega), List.getD_eq_default _ _ (by omega)]
    rfl

-- ============================================================================
-- The tables
-- ============================================================================

/-- The tables list the register after eight shifts of every byte. -/
theorem crcTables :
    (List.range 256).map (fun i => lfsrFeed crcTaps (BitVec.ofNat 16 i) (List.replicate 8 false))
      = List.zipWith (fun hi lo => register (hi, lo)) auchCRCHi auchCRCLo := by
  decide +kernel

theorem crcTables_length : auchCRCHi.length = 256 ∧ auchCRCLo.length = 256 := by
  decide +kernel

/-- A byte in the low half of the register leaves its two table entries. -/
theorem lfsrFeed_low (b : UInt8) :
    lfsrFeed crcTaps (0#8 ++ b.toBitVec) (List.replicate 8 false)
      = register (auchCRCHi.getD b.toNat 0, auchCRCLo.getD b.toNat 0) := by
  have hlt := b.toNat_lt
  have hhi : b.toNat < auchCRCHi.length := by rw [crcTables_length.1]; exact hlt
  have hlo : b.toNat < auchCRCLo.length := by rw [crcTables_length.2]; exact hlt
  have hword : 0#8 ++ b.toBitVec = BitVec.ofNat 16 b.toNat := by
    apply BitVec.eq_of_toNat_eq
    rw [BitVec.toNat_append, BitVec.toNat_ofNat, BitVec.toNat_ofNat, Nat.zero_mod,
      Nat.zero_shiftLeft, Nat.zero_or, Nat.mod_eq_of_lt (by omega)]
    rfl
  have hentry := congrArg (fun entries => entries[b.toNat]?) crcTables
  simp only [List.getElem?_map, List.getElem?_range hlt, List.getElem?_zipWith,
    List.getElem?_eq_getElem hhi, List.getElem?_eq_getElem hlo, Option.map_some,
    Option.some.injEq] at hentry
  rw [hword, hentry, List.getD_eq_getElem _ _ hhi, List.getD_eq_getElem _ _ hlo]

/-- A byte in the high half moves down. -/
theorem lfsrFeed_high (b : UInt8) :
    lfsrFeed crcTaps (b.toBitVec ++ 0#8) (List.replicate 8 false) = register (b, 0) := by
  have hall : ∀ i : Fin 256, lfsrFeed crcTaps ((BitVec.ofFin i : BitVec 8) ++ 0#8) (List.replicate 8 false)
      = 0#8 ++ (BitVec.ofFin i : BitVec 8) := by
    decide +kernel
  exact hall b.toBitVec.toFin

theorem crcTaps_high : crcTaps.getLsbD (16 - 1) = true := rfl

theorem getLsbD_register (crc : UInt8 × UInt8) (i : Nat) :
    (register crc).getLsbD i
      = if i < 8 then crc.1.toBitVec.getLsbD i else crc.2.toBitVec.getLsbD (i - 8) := by
  rw [register, BitVec.getLsbD_append]

theorem getD_byteBits (b : UInt8) (i : Nat) :
    (byteBits b).getD i false = b.toBitVec.getLsbD i := by
  by_cases hi : i < 8
  · rw [List.getD_eq_getElem?_getD, byteBits, List.getElem?_map, List.getElem?_range hi]
    rfl
  · rw [List.getD_eq_default _ _ (by rw [byteBits_length]; omega),
      BitVec.getLsbD_of_ge _ _ (by omega)]

/-- A byte in the low half of the register is its bits. -/
theorem holdsBits_byte (b : UInt8) : HoldsBits (register (b, 0)) (byteBits b) := by
  intro i
  rw [getLsbD_register, getD_byteBits]
  by_cases hi : i < 8
  · rw [if_pos hi]
  · rw [if_neg hi, BitVec.getLsbD_of_ge b.toBitVec i (by omega)]
    exact BitVec.getLsbD_zero

/-- The register holds the bits of its two bytes. -/
theorem holdsBits_pair (a b : UInt8) : HoldsBits (register (a, b)) (bitsOf [a, b]) := by
  intro i
  have hbits : bitsOf [a, b] = byteBits a ++ byteBits b := rfl
  rw [getLsbD_register, hbits]
  by_cases hi : i < 8
  · rw [if_pos hi, List.getD_append _ _ _ _ (by rw [byteBits_length]; exact hi), getD_byteBits]
  · rw [if_neg hi, List.getD_append_right _ _ _ _ (by rw [byteBits_length]; omega),
      byteBits_length, getD_byteBits]

theorem holdsBits_unique {s t : BitVec 16} {bits : List Bool} (hs : HoldsBits s bits)
    (ht : HoldsBits t bits) : s = t := by
  apply BitVec.eq_of_getLsbD_eq
  intro i _
  rw [hs i, ht i]

theorem register_inj {a b : UInt8 × UInt8} (h : register a = register b) : a = b := by
  have hbit : ∀ i, (register a).getLsbD i = (register b).getLsbD i := fun i => by rw [h]
  apply Prod.ext
  · rw [← UInt8.toBitVec_inj]
    apply BitVec.eq_of_getLsbD_eq
    intro i hi
    have hlow := hbit i
    rwa [getLsbD_register, getLsbD_register, if_pos hi, if_pos hi] at hlow
  · rw [← UInt8.toBitVec_inj]
    apply BitVec.eq_of_getLsbD_eq
    intro i hi
    have hhigh := hbit (i + 8)
    rwa [getLsbD_register, getLsbD_register, if_neg (by omega), if_neg (by omega),
      Nat.add_sub_cancel] at hhigh

theorem register_xor (a b : UInt8 × UInt8) :
    register a ^^^ register b = register (a.1 ^^^ b.1, a.2 ^^^ b.2) := by
  apply BitVec.eq_of_getLsbD_eq
  intro i _
  rw [BitVec.getLsbD_xor, getLsbD_register, getLsbD_register, getLsbD_register]
  split
  · rw [UInt8.toBitVec_xor, BitVec.getLsbD_xor]
  · rw [UInt8.toBitVec_xor, BitVec.getLsbD_xor]

/-- One turn of the loop of `crc16` is eight steps of the register. -/
theorem register_crcStep (crc : UInt8 × UInt8) (b : UInt8) :
    register (crcStep crc b) = lfsrFeed crcTaps (register crc) (byteBits b) := by
  have hsplit : register crc ^^^ register (b, 0)
      = (0#8 ++ (crc.1 ^^^ b).toBitVec) ^^^ (crc.2.toBitVec ++ 0#8) := by
    rw [register_xor]
    show register (crc.1 ^^^ b, crc.2 ^^^ 0) = register (crc.1 ^^^ b, 0) ^^^ register (0, crc.2)
    rw [register_xor]
    simp
  have hzeros : List.zipWith xor (List.replicate 8 false) (List.replicate 8 false)
      = List.replicate 8 false := rfl
  rw [lfsrFeed_absorb crcTaps_high (register crc) (by rw [byteBits_length]; omega)
      (holdsBits_byte b), byteBits_length, hsplit, ← hzeros, lfsrFeed_xor _ _ _ rfl, lfsrFeed_low,
    lfsrFeed_high, register_xor]
  simp [crcStep, UInt8.xor_comm]

/-- The checksum of a block is the register after its bits. -/
theorem register_foldl (crc : UInt8 × UInt8) (bs : List UInt8) :
    register (bs.foldl crcStep crc) = lfsrFeed crcTaps (register crc) (bitsOf bs) := by
  induction bs generalizing crc with
  | nil => rfl
  | cons b bs ih =>
      rw [List.foldl_cons, ih, register_crcStep, bitsOf_cons, lfsrFeed_append]

theorem register_crcOf (bs : List UInt8) :
    register (crcOf bs) = lfsrFeed crcTaps (register (0xFF, 0xFF)) (bitsOf bs) :=
  register_foldl _ bs

-- ============================================================================
-- Sealed blocks and bursts
-- ============================================================================

theorem register_zero : register (0, 0) = 0#16 := rfl

/-- Two bytes are the checksum of what stands before them exactly when the checksum
    of the whole is zero. -/
theorem crcOf_sealed_iff (body : List UInt8) (a b : UInt8) :
    crcOf (body ++ [a, b]) = (0, 0) ↔ crcOf body = (a, b) := by
  have hclear := lfsrFeed_eq_zero_iff crcTaps_high (register (crcOf body))
    (show (bitsOf [a, b]).length ≤ 16 by rw [bitsOf_length]; exact Nat.le_refl 16)
  rw [register_crcOf, ← lfsrFeed_append, ← bitsOf_append, ← register_crcOf, ← register_crcOf]
    at hclear
  refine ⟨?_, ?_⟩
  · intro h
    rw [h, register_zero] at hclear
    exact register_inj (holdsBits_unique (hclear.mp rfl) (holdsBits_pair a b))
  · intro h
    rw [h] at hclear
    exact register_inj (hclear.mpr (holdsBits_pair a b))

/-- An error that a cleared register does not show clears it itself. -/
theorem lfsrFeed_unseen {bs error : List UInt8} (hlen : error.length = bs.length)
    (hclear : crcOf bs = (0, 0)) (hunseen : crcOf (xorBytes bs error) = (0, 0)) :
    lfsrFeed crcTaps 0#16 (bitsOf error) = 0#16 := by
  have hsame : (bitsOf bs).length = (bitsOf error).length := by
    rw [bitsOf_length, bitsOf_length, hlen]
  have hlinear := lfsrFeed_xor crcTaps (register (0xFF, 0xFF)) 0#16 hsame
  rw [BitVec.xor_zero, ← bitsOf_xorBytes hlen, ← register_crcOf, ← register_crcOf, hunseen, hclear,
    register_zero, BitVec.zero_xor] at hlinear
  exact hlinear.symm

/-- No burst is missed. -/
theorem crcOf_burst {bs error : List UInt8} (hlen : error.length = bs.length)
    (hburst : IsBurst error) (hclear : crcOf bs = (0, 0)) :
    crcOf (xorBytes bs error) ≠ (0, 0) := by
  obtain ⟨m, n, burst, hbits, hshort, hone⟩ := hburst
  intro h
  apply lfsrFeed_burst crcTaps_high hshort hone m n
  rw [← hbits]
  exact lfsrFeed_unseen hlen hclear h

/-- The check of a block, in terms of its whole checksum. -/
theorem checksumOk_iff {block : List UInt8} (h : 2 ≤ block.length) :
    checksumOk block = true ↔ crcOf block = (0, 0) := by
  obtain ⟨a, b, hab⟩ := exists_last_two h
  have hsplit : block = block.take (block.length - 2) ++ [a, b] := by
    rw [← hab, List.take_append_drop]
  have hseal := crcOf_sealed_iff (block.take (block.length - 2)) a b
  rw [← hsplit] at hseal
  rw [checksumOk, hab, decide_eq_true_iff, crcBytes_eq_iff, hseal]

theorem crcOf_sealedMessage (body : List UInt8) : crcOf (sealedMessage body) = (0, 0) :=
  (crcOf_sealed_iff body _ _).mpr rfl

end LinuxCodeDemos.TcpFile

/-
  LinuxCodeDemos.TcpFile.Checksum

  What `crc16` computes and what `package_check` sees.

  `crc16Modbus` is CRC-16/MODBUS bit by bit: the byte goes into the low end of a register of
  16 bits, which shifts eight times.  `crc16` works on the two halves of this register, with
  the low one in `uchCRCHi`, and so returns its bytes swapped (`crc16_eq_modbus`).

  The taps 0xA001 are odd in number and the highest is set, so neither an odd number of
  flipped bits nor a burst of 16 bits leaves a sealed message acceptable
  (`packageCheck_detects`).
-/

import LinuxCodeDemos.TcpFile.Burst

namespace LinuxCodeDemos.TcpFile

open Lib

-- ============================================================================
-- The bitwise checksum
-- ============================================================================

/-- One shift of the reflected register. -/
def modbusShift (crc : UInt16) : UInt16 :=
  if crc &&& 1 = 1 then (crc >>> 1) ^^^ 0xA001 else crc >>> 1

/-- One byte. -/
def modbusByte (crc : UInt16) (b : UInt8) : UInt16 := modbusShift^[8] (crc ^^^ b.toUInt16)

/-- CRC-16/MODBUS: initial value 0xFFFF, no final xor. -/
def crc16Modbus (bs : List UInt8) : UInt16 := bs.foldl modbusByte 0xFFFF

/-- The two bytes of a word, swapped. -/
def swapBytes (word : Nat) : Nat := (word &&& 0xFF) <<< 8 ||| word >>> 8

theorem modbusShift_toBitVec (crc : UInt16) :
    (modbusShift crc).toBitVec = lfsrShift crcTaps crc.toBitVec := by
  have hshift : (crc >>> 1).toBitVec = crc.toBitVec >>> 1 := rfl
  have hlow : crc &&& 1 = 1 ↔ crc.toBitVec.getLsbD 0 = true := by
    rw [← UInt16.toBitVec_inj, UInt16.toBitVec_and]
    show crc.toBitVec &&& 1#16 = 1#16 ↔ _
    rw [BitVec.and_one_eq_setWidth_ofBool_getLsbD]
    cases crc.toBitVec.getLsbD 0 <;> decide
  rw [modbusShift, lfsrShift]
  by_cases hone : crc &&& 1 = 1
  · rw [if_pos hone, if_pos (hlow.mp hone), UInt16.toBitVec_xor, hshift]
    rfl
  · rw [if_neg hone, if_neg (fun h => hone (hlow.mpr h)), hshift, BitVec.xor_zero]

/-- Zeros only shift the register. -/
theorem lfsrFeed_iterate (s : UInt16) (n : Nat) :
    lfsrFeed crcTaps s.toBitVec (List.replicate n false) = (modbusShift^[n] s).toBitVec := by
  induction n generalizing s with
  | zero => rfl
  | succ n ih =>
      have hstep : lfsrStep crcTaps s.toBitVec false = (modbusShift s).toBitVec := by
        rw [lfsrStep, modbusShift_toBitVec]
        exact congrArg _ (BitVec.xor_zero)
      rw [List.replicate_succ, lfsrFeed_cons, hstep, ih, Function.iterate_succ_apply]

/-- One byte of `crc16` is one byte of the bitwise checksum. -/
theorem register_modbusByte {crc : UInt8 × UInt8} {word : UInt16}
    (h : register crc = word.toBitVec) (b : UInt8) :
    register (crcStep crc b) = (modbusByte word b).toBitVec := by
  have hbyte : register (b, 0) = b.toUInt16.toBitVec := by
    apply BitVec.eq_of_getLsbD_eq
    intro i hi
    rw [getLsbD_register, UInt8.toBitVec_toUInt16, BitVec.getLsbD_setWidth, decide_eq_true hi,
      Bool.true_and]
    split
    · rfl
    · rw [BitVec.getLsbD_of_ge b.toBitVec i (by omega)]
      exact BitVec.getLsbD_zero
  rw [register_crcStep, lfsrFeed_absorb crcTaps_high _ (by rw [byteBits_length]; omega)
    (holdsBits_byte b), byteBits_length, h, hbyte, ← UInt16.toBitVec_xor, lfsrFeed_iterate]
  rfl

/-- The two halves of `crc16` are the register of the bitwise checksum. -/
theorem register_crc16Modbus (bs : List UInt8) :
    register (crcOf bs) = (crc16Modbus bs).toBitVec := by
  have hfold : ∀ (crc : UInt8 × UInt8) (word : UInt16), register crc = word.toBitVec →
      register (bs.foldl crcStep crc) = (bs.foldl modbusByte word).toBitVec := by
    induction bs with
    | nil => exact fun _ _ h => h
    | cons b bs ih => exact fun crc word h => ih _ _ (register_modbusByte h b)
  exact hfold (0xFF, 0xFF) 0xFFFF rfl

/-- The returned word has the low half of the register as its high byte. -/
theorem crcWord_eq_swapBytes {crc : UInt8 × UInt8} {word : UInt16}
    (h : register crc = word.toBitVec) : crcWord crc = swapBytes word.toNat := by
  have hword : word.toNat = crc.2.toNat * 256 + crc.1.toNat := by
    have hnat := congrArg BitVec.toNat h
    rw [register, BitVec.toNat_append, ← Nat.shiftLeft_add_eq_or_of_lt crc.1.toBitVec.isLt,
      Nat.shiftLeft_eq] at hnat
    exact hnat.symm
  have hlow := crc.1.toNat_lt
  have hand : word.toNat &&& 0xFF = crc.1.toNat := by
    rw [Nat.and_two_pow_sub_one_eq_mod word.toNat 8]
    omega
  have hhigh : word.toNat >>> 8 = crc.2.toNat := by
    rw [Nat.shiftRight_eq_div_pow]
    omega
  rw [swapBytes, hand, hhigh, crcWord]

/-- `crc16` is CRC-16/MODBUS with its bytes swapped. -/
theorem crc16_eq_modbus {bs : List UInt8} (hlen : bs.length < 2 ^ 32) :
    crc16 bs bs.length = .ok (swapBytes (crc16Modbus bs).toNat) := by
  have hcrc := crc16_append hlen []
  rw [List.append_nil] at hcrc
  rw [hcrc, crcWord_eq_swapBytes (register_crc16Modbus bs)]

-- the check value of CRC-16/MODBUS
example : crc16Modbus [0x31, 0x32, 0x33, 0x34, 0x35, 0x36, 0x37, 0x38, 0x39] = 0x4B37 := by
  decide +kernel

theorem crc16_eq_modbus_digits :
    crc16 [0x31, 0x32, 0x33, 0x34, 0x35, 0x36, 0x37, 0x38, 0x39] 9
      = .ok (swapBytes (crc16Modbus [0x31, 0x32, 0x33, 0x34, 0x35, 0x36, 0x37, 0x38, 0x39]).toNat) :=
  crc16_eq_modbus (by decide)

-- ============================================================================
-- Errors
-- ============================================================================

/-- An odd number of bits is flipped. -/
def OddFlips (error : List UInt8) : Prop := (bitsOf error).count true % 2 = 1

instance (error : List UInt8) : Decidable (OddFlips error) := inferInstanceAs (Decidable (_ = _))

/-- No odd number of flipped bits is missed. -/
theorem crcOf_odd {bs error : List UInt8} (hlen : error.length = bs.length)
    (hodd : OddFlips error) (hclear : crcOf bs = (0, 0)) : crcOf (xorBytes bs error) ≠ (0, 0) := by
  have htaps : wordParity crcTaps = true := rfl
  intro h
  exact lfsrFeed_odd htaps hodd (lfsrFeed_unseen hlen hclear h)

/-- A message of at most 32765 bytes and its checksum, high byte first, are accepted, and
    rejected after an odd number of flipped bits or a burst of 16. -/
theorem packageCheck_detects {m : List UInt8} (hm : m.length ≤ 32765) :
    ∃ crc frame, crc16 m m.length = .ok crc ∧ sealMessage m = .ok frame ∧
      frame = m ++ [UInt8.ofNat (crc >>> 8), UInt8.ofNat crc] ∧
      packageCheck frame frame.length = .ok true ∧
      ∀ error : List UInt8, error.length = frame.length → OddFlips error ∨ IsBurst error →
        packageCheck (xorBytes frame error) frame.length = .ok false := by
  have hlen := sealedMessage_length m
  have hcheck : ∀ block : List UInt8, block.length = (sealedMessage m).length →
      packageCheck block (sealedMessage m).length = .ok (checksumOk block) := by
    intro block hblock
    have hcall := packageCheck_block hblock (by omega) (by omega) []
    rwa [List.append_nil] at hcall
  have hcrc := crc16_append (show m.length < 2 ^ 32 by omega) []
  rw [List.append_nil] at hcrc
  refine ⟨_, sealedMessage m, hcrc, sealMessage_eq (by omega), ?_, ?_, ?_⟩
  · have hbytes := leBytes_word (crcOf m).1 (crcOf m).2
    rw [leBytes, List.cons.injEq, List.cons.injEq] at hbytes
    rw [crcWord, hbytes.1, hbytes.2.1]
    rfl
  · rw [hcheck _ rfl, (checksumOk_iff (by omega)).mpr (crcOf_sealedMessage m)]
  · intro error herror herr
    have hhit := xorBytes_length herror
    have hseen : crcOf (xorBytes (sealedMessage m) error) ≠ (0, 0) := by
      rcases herr with hodd | hburst
      · exact crcOf_odd herror hodd (crcOf_sealedMessage m)
      · exact crcOf_burst herror hburst (crcOf_sealedMessage m)
    have hno : checksumOk (xorBytes (sealedMessage m) error) = false := by
      rw [← Bool.not_eq_true, checksumOk_iff (by omega)]
      exact hseen
    rw [hcheck _ hhit, hno]

/-- One flipped bit in the frame of one byte. -/
theorem packageCheck_detects_byte :
    ∃ crc frame, crc16 [7] 1 = .ok crc ∧ sealMessage [7] = .ok frame ∧
      frame = [7, UInt8.ofNat (crc >>> 8), UInt8.ofNat crc] ∧
      packageCheck frame frame.length = .ok true ∧
      packageCheck (xorBytes frame [0, 1, 0]) frame.length = .ok false := by
  obtain ⟨crc, frame, hcrc, hseal, hframe, hok, hbad⟩ :=
    packageCheck_detects (show ([7] : List UInt8).length ≤ 32765 by decide)
  refine ⟨crc, frame, hcrc, hseal, hframe, hok, hbad [0, 1, 0] ?_ (.inl (by decide))⟩
  rw [hframe]
  rfl

end LinuxCodeDemos.TcpFile

/-
  LinuxCodeDemos.TcpFile.Crc

  The checksum of the file transfer (`socket/tcp_00/crc.h`).

  Both programs seal a message by appending the high and then the low byte of
  `crc16`, and `package_check` compares the checksum of everything but the last
  two bytes with those two.  The pointer arguments of the source are blocks of
  bytes here; reading past the block is `Fault.read`.
-/

import Mathlib.Data.List.Basic
import LinuxCodeDemos.Lib.Memory

namespace LinuxCodeDemos.TcpFile

open Lib

def auchCRCHi : List UInt8 :=
  [
    0x00, 0xC1, 0x81, 0x40, 0x01, 0xC0, 0x80, 0x41, 0x01, 0xC0, 0x80, 0x41, 0x00, 0xC1, 0x81, 0x40,
    0x01, 0xC0, 0x80, 0x41, 0x00, 0xC1, 0x81, 0x40, 0x00, 0xC1, 0x81, 0x40, 0x01, 0xC0, 0x80, 0x41,
    0x01, 0xC0, 0x80, 0x41, 0x00, 0xC1, 0x81, 0x40, 0x00, 0xC1, 0x81, 0x40, 0x01, 0xC0, 0x80, 0x41,
    0x00, 0xC1, 0x81, 0x40, 0x01, 0xC0, 0x80, 0x41, 0x01, 0xC0, 0x80, 0x41, 0x00, 0xC1, 0x81, 0x40,
    0x01, 0xC0, 0x80, 0x41, 0x00, 0xC1, 0x81, 0x40, 0x00, 0xC1, 0x81, 0x40, 0x01, 0xC0, 0x80, 0x41,
    0x00, 0xC1, 0x81, 0x40, 0x01, 0xC0, 0x80, 0x41, 0x01, 0xC0, 0x80, 0x41, 0x00, 0xC1, 0x81, 0x40,
    0x00, 0xC1, 0x81, 0x40, 0x01, 0xC0, 0x80, 0x41, 0x01, 0xC0, 0x80, 0x41, 0x00, 0xC1, 0x81, 0x40,
    0x01, 0xC0, 0x80, 0x41, 0x00, 0xC1, 0x81, 0x40, 0x00, 0xC1, 0x81, 0x40, 0x01, 0xC0, 0x80, 0x41,
    0x01, 0xC0, 0x80, 0x41, 0x00, 0xC1, 0x81, 0x40, 0x00, 0xC1, 0x81, 0x40, 0x01, 0xC0, 0x80, 0x41,
    0x00, 0xC1, 0x81, 0x40, 0x01, 0xC0, 0x80, 0x41, 0x01, 0xC0, 0x80, 0x41, 0x00, 0xC1, 0x81, 0x40,
    0x00, 0xC1, 0x81, 0x40, 0x01, 0xC0, 0x80, 0x41, 0x01, 0xC0, 0x80, 0x41, 0x00, 0xC1, 0x81, 0x40,
    0x01, 0xC0, 0x80, 0x41, 0x00, 0xC1, 0x81, 0x40, 0x00, 0xC1, 0x81, 0x40, 0x01, 0xC0, 0x80, 0x41,
    0x00, 0xC1, 0x81, 0x40, 0x01, 0xC0, 0x80, 0x41, 0x01, 0xC0, 0x80, 0x41, 0x00, 0xC1, 0x81, 0x40,
    0x01, 0xC0, 0x80, 0x41, 0x00, 0xC1, 0x81, 0x40, 0x00, 0xC1, 0x81, 0x40, 0x01, 0xC0, 0x80, 0x41,
    0x01, 0xC0, 0x80, 0x41, 0x00, 0xC1, 0x81, 0x40, 0x00, 0xC1, 0x81, 0x40, 0x01, 0xC0, 0x80, 0x41,
    0x00, 0xC1, 0x81, 0x40, 0x01, 0xC0, 0x80, 0x41, 0x01, 0xC0, 0x80, 0x41, 0x00, 0xC1, 0x81, 0x40]

def auchCRCLo : List UInt8 :=
  [
    0x00, 0xC0, 0xC1, 0x01, 0xC3, 0x03, 0x02, 0xC2, 0xC6, 0x06, 0x07, 0xC7, 0x05, 0xC5, 0xC4, 0x04,
    0xCC, 0x0C, 0x0D, 0xCD, 0x0F, 0xCF, 0xCE, 0x0E, 0x0A, 0xCA, 0xCB, 0x0B, 0xC9, 0x09, 0x08, 0xC8,
    0xD8, 0x18, 0x19, 0xD9, 0x1B, 0xDB, 0xDA, 0x1A, 0x1E, 0xDE, 0xDF, 0x1F, 0xDD, 0x1D, 0x1C, 0xDC,
    0x14, 0xD4, 0xD5, 0x15, 0xD7, 0x17, 0x16, 0xD6, 0xD2, 0x12, 0x13, 0xD3, 0x11, 0xD1, 0xD0, 0x10,
    0xF0, 0x30, 0x31, 0xF1, 0x33, 0xF3, 0xF2, 0x32, 0x36, 0xF6, 0xF7, 0x37, 0xF5, 0x35, 0x34, 0xF4,
    0x3C, 0xFC, 0xFD, 0x3D, 0xFF, 0x3F, 0x3E, 0xFE, 0xFA, 0x3A, 0x3B, 0xFB, 0x39, 0xF9, 0xF8, 0x38,
    0x28, 0xE8, 0xE9, 0x29, 0xEB, 0x2B, 0x2A, 0xEA, 0xEE, 0x2E, 0x2F, 0xEF, 0x2D, 0xED, 0xEC, 0x2C,
    0xE4, 0x24, 0x25, 0xE5, 0x27, 0xE7, 0xE6, 0x26, 0x22, 0xE2, 0xE3, 0x23, 0xE1, 0x21, 0x20, 0xE0,
    0xA0, 0x60, 0x61, 0xA1, 0x63, 0xA3, 0xA2, 0x62, 0x66, 0xA6, 0xA7, 0x67, 0xA5, 0x65, 0x64, 0xA4,
    0x6C, 0xAC, 0xAD, 0x6D, 0xAF, 0x6F, 0x6E, 0xAE, 0xAA, 0x6A, 0x6B, 0xAB, 0x69, 0xA9, 0xA8, 0x68,
    0x78, 0xB8, 0xB9, 0x79, 0xBB, 0x7B, 0x7A, 0xBA, 0xBE, 0x7E, 0x7F, 0xBF, 0x7D, 0xBD, 0xBC, 0x7C,
    0xB4, 0x74, 0x75, 0xB5, 0x77, 0xB7, 0xB6, 0x76, 0x72, 0xB2, 0xB3, 0x73, 0xB1, 0x71, 0x70, 0xB0,
    0x50, 0x90, 0x91, 0x51, 0x93, 0x53, 0x52, 0x92, 0x96, 0x56, 0x57, 0x97, 0x55, 0x95, 0x94, 0x54,
    0x9C, 0x5C, 0x5D, 0x9D, 0x5F, 0x9F, 0x9E, 0x5E, 0x5A, 0x9A, 0x9B, 0x5B, 0x99, 0x59, 0x58, 0x98,
    0x88, 0x48, 0x49, 0x89, 0x4B, 0x8B, 0x8A, 0x4A, 0x4E, 0x8E, 0x8F, 0x4F, 0x8D, 0x4D, 0x4C, 0x8C,
    0x44, 0x84, 0x85, 0x45, 0x87, 0x47, 0x46, 0x86, 0x82, 0x42, 0x43, 0x83, 0x41, 0x81, 0x80, 0x40]

-- ============================================================================
-- Definitions
-- ============================================================================

/-- One turn of the loop of `crc16`.  The index is the exclusive or of two
    unsigned bytes, so it is below 256 and both tables have an entry. -/
def crcStep (crc : UInt8 × UInt8) (b : UInt8) : UInt8 × UInt8 :=
  let uIndex := (crc.1 ^^^ b).toNat
  (crc.2 ^^^ auchCRCHi.getD uIndex 0, auchCRCLo.getD uIndex 0)

/-- `uchCRCHi << 8 | uchCRCLo`. -/
def crcWord (crc : UInt8 × UInt8) : Nat := crc.1.toNat <<< 8 ||| crc.2.toNat

/-- The loop of `crc16`, with `len` turns to go. -/
def crc16Loop : List UInt8 → Nat → UInt8 × UInt8 → Except Fault Nat
  | _, 0, crc => .ok (crcWord crc)
  | [], _ + 1, _ => .error .read
  | b :: pbuf, len + 1, crc => crc16Loop pbuf len (crcStep crc b)

/-- `crc16`.  `while (len--)` counts an `int` down to zero: from a negative
    `len` it goes round through the whole range. -/
def crc16 (pbuf : List UInt8) (len : Int) : Except Fault Nat :=
  crc16Loop pbuf (len % 2 ^ 32).toNat (0xFF, 0xFF)

/-- The loop of `RecoverSelfData`; `i` and `j` are `unsigned char`.  `none` when
    the fuel runs out. -/
def recoverSelfDataLoop : Nat → UInt8 → List UInt8 → Nat → Option (List UInt8)
  | 0, _, _, _ => none
  | fuel + 1, i, pData, len =>
      if i.toNat < len / 2 then
        let j := UInt8.ofNat (len - i.toNat - 1)
        let tmp := pData.getD i.toNat 0
        recoverSelfDataLoop fuel (i + 1)
          ((pData.set i.toNat (pData.getD j.toNat 0)).set j.toNat tmp) len
      else some pData

/-- `RecoverSelfData`. -/
def recoverSelfData (pData : List UInt8) (len : Nat) : Option (List UInt8) :=
  recoverSelfDataLoop (len / 2 + 1) 0 pData len

/-- The bytes of an `unsigned short` in memory, low byte first. -/
def leBytes (w : Nat) : List UInt8 := [UInt8.ofNat w, UInt8.ofNat (w >>> 8)]

/-- The `unsigned short` with these bytes in memory. -/
def ofLeBytes (bs : List UInt8) : Nat := (bs.getD 1 0).toNat <<< 8 ||| (bs.getD 0 0).toNat

/-- An `unsigned short` after `RecoverSelfData ((unsigned char *)&w, 2)`. -/
def recoverShort (w : Nat) : Nat := ofLeBytes ((recoverSelfData (leBytes w) 2).getD [])

/-- `crc16 (buffer, pos)`, the byte swap, `buffer[pos++] = crc` and
    `buffer[pos++] = crc >> 8`: the message with its checksum. -/
def sealMessage (body : List UInt8) : Except Fault (List UInt8) := do
  let crc ← crc16 body body.length
  .ok (body ++ leBytes (recoverShort crc))

/-- The body of `package_check`, for a `bufLen` that is a `short`. -/
def packageCheckShort (inBuf : List UInt8) (bufLen : Int) : Except Fault Bool := do
  let calCRC16 ← crc16 inBuf (bufLen - 2)
  let revCRC16 ← loadBytes inBuf (bufLen - 2).toNat 2
  .ok (calCRC16 == recoverShort (ofLeBytes revCRC16))

/-- `package_check`: the callers pass an `int`, the parameter is a `short`. -/
def packageCheck (inBuf : List UInt8) (bufLen : Int) : Except Fault Bool :=
  packageCheckShort inBuf (bufLen.bmod (2 ^ 16))

-- ============================================================================
-- The checksum of a block
-- ============================================================================

/-- The two bytes of the checksum of `bs`. -/
def crcOf (bs : List UInt8) : UInt8 × UInt8 := bs.foldl crcStep (0xFF, 0xFF)

theorem crc16Loop_append (bs rest : List UInt8) (crc : UInt8 × UInt8) :
    crc16Loop (bs ++ rest) bs.length crc = .ok (crcWord (bs.foldl crcStep crc)) := by
  induction bs generalizing crc with
  | nil => rw [List.length_nil, crc16Loop, List.foldl_nil]
  | cons b bs ih =>
      rw [List.cons_append, List.length_cons, crc16Loop, ih, List.foldl_cons]

theorem crc16Loop_short {pbuf : List UInt8} {len : Nat} (h : pbuf.length < len)
    (crc : UInt8 × UInt8) : crc16Loop pbuf len crc = .error .read := by
  induction pbuf generalizing len crc with
  | nil =>
      cases len with
      | zero => exact absurd h (Nat.lt_irrefl 0)
      | succ len => rfl
  | cons b pbuf ih =>
      cases len with
      | zero => exact absurd h (Nat.not_lt_zero _)
      | succ len => exact ih (Nat.lt_of_succ_lt_succ h) _

/-- `crc16` of the beginning of a block. -/
theorem crc16_append {bs : List UInt8} (h : bs.length < 2 ^ 32) (rest : List UInt8) :
    crc16 (bs ++ rest) bs.length = .ok (crcWord (crcOf bs)) := by
  have hlen : ((bs.length : Int) % 2 ^ 32).toNat = bs.length := by omega
  rw [crc16, hlen, crc16Loop_append]
  rfl

/-- A negative length runs out of any block below two gigabytes. -/
theorem crc16_neg {pbuf : List UInt8} {len : Int} (hneg : len < 0) (hlow : -2 ^ 31 ≤ len)
    (h : pbuf.length < 2 ^ 31) : crc16 pbuf len = .error .read :=
  crc16Loop_short (by omega) _

-- ============================================================================
-- Sealing and checking
-- ============================================================================

theorem shiftLeft_or_eq (a b : UInt8) : a.toNat <<< 8 ||| b.toNat = a.toNat * 256 + b.toNat := by
  rw [← Nat.shiftLeft_add_eq_or_of_lt b.toNat_lt, Nat.shiftLeft_eq]

theorem leBytes_word (a b : UInt8) : leBytes (a.toNat <<< 8 ||| b.toNat) = [b, a] := by
  have ha := a.toNat_lt
  have hb := b.toNat_lt
  have hlow : UInt8.ofNat (a.toNat * 256 + b.toNat) = b := by
    rw [← UInt8.toNat_inj, UInt8.toNat_ofNat']
    omega
  rw [shiftLeft_or_eq, leBytes, Nat.shiftRight_eq_div_pow,
    show (a.toNat * 256 + b.toNat) / 2 ^ 8 = a.toNat by omega, UInt8.ofNat_toNat, hlow]

/-- Checksums are compared byte by byte. -/
theorem crcWord_beq (crc : UInt8 × UInt8) (a b : UInt8) :
    (crcWord crc == a.toNat <<< 8 ||| b.toNat) = decide (crc = (a, b)) := by
  obtain ⟨hi, lo⟩ := crc
  have ha := a.toNat_lt
  have hb := b.toNat_lt
  have hhi := hi.toNat_lt
  have hlo := lo.toNat_lt
  rw [crcWord, shiftLeft_or_eq, shiftLeft_or_eq, Bool.beq_eq_decide_eq, decide_eq_decide]
  refine ⟨?_, ?_⟩
  · intro (heq : hi.toNat * 256 + lo.toNat = a.toNat * 256 + b.toNat)
    have h1 : hi = a := UInt8.toNat_inj.mp (by omega)
    have h2 : lo = b := UInt8.toNat_inj.mp (by omega)
    rw [h1, h2]
  · rintro ⟨⟩
    rfl

/-- The byte swap of a word. -/
theorem recoverShort_word (a b : UInt8) :
    recoverShort (a.toNat <<< 8 ||| b.toNat) = b.toNat <<< 8 ||| a.toNat := by
  rw [recoverShort, leBytes_word]
  rfl

/-- A message is sealed with the high and then the low byte of its checksum. -/
theorem sealMessage_eq {body : List UInt8} (h : body.length < 2 ^ 32) :
    sealMessage body = .ok (body ++ [(crcOf body).1, (crcOf body).2]) := by
  have hcrc := crc16_append h []
  rw [List.append_nil] at hcrc
  simp only [sealMessage, hcrc, bind, Except.bind, crcWord]
  rw [recoverShort_word, leBytes_word]

/-- A message length that is a `short`. -/
theorem packageCheck_eq {inBuf : List UInt8} {bufLen : Int} (hlow : -2 ^ 15 ≤ bufLen)
    (hhigh : bufLen < 2 ^ 15) : packageCheck inBuf bufLen = packageCheckShort inBuf bufLen := by
  rw [packageCheck, Int.bmod_eq_of_le (by omega) (by omega)]

/-- `package_check` compares the last two bytes of the message with the checksum
    of the bytes before them. -/
theorem packageCheck_append {body : List UInt8} (h : body.length + 2 < 2 ^ 15) (a b : UInt8)
    (rest : List UInt8) :
    packageCheck (body ++ a :: b :: rest) (body.length + 2)
      = .ok (decide (crcOf body = (a, b))) := by
  have hload : loadBytes (body ++ a :: b :: rest) body.length 2 = .ok [a, b] := by
    rw [loadBytes_of_le (by simp), List.drop_left]
    rfl
  have hcrc := crc16_append (show body.length < 2 ^ 32 by omega) (a :: b :: rest)
  rw [packageCheck_eq (by omega) (by omega), packageCheckShort, Int.add_sub_cancel, hcrc]
  simp only [Int.toNat_natCast, hload, bind, Except.bind, ofLeBytes, List.getD_cons_zero,
    List.getD_cons_succ]
  rw [recoverShort_word, crcWord_beq]

/-- A negative message length. -/
theorem packageCheck_neg {inBuf : List UInt8} {length : Int} (hneg : length < 0)
    (hlow : -2 ^ 15 ≤ length) (h : inBuf.length < 2 ^ 31) :
    packageCheck inBuf (length + 2) = .error .read := by
  rw [packageCheck_eq (by omega) (by omega), packageCheckShort, Int.add_sub_cancel,
    crc16_neg hneg (by omega) h]
  rfl

/-- A message length beyond the block. -/
theorem packageCheck_long {inBuf : List UInt8} {length : Int} (hpos : 0 ≤ length)
    (hhigh : length + 2 < 2 ^ 15) (h : (inBuf.length : Int) < length + 2) :
    packageCheck inBuf (length + 2) = .error .read := by
  rw [packageCheck_eq (by omega) hhigh, packageCheckShort, Int.add_sub_cancel]
  by_cases hcrc : inBuf.length < length
  · have hscan : crc16 inBuf length = .error .read := crc16Loop_short (by omega) _
    rw [hscan]
    rfl
  · -- the scan stays inside, the two bytes behind it do not
    have hload : loadBytes inBuf length.toNat 2 = .error .read := by
      rw [loadBytes, if_neg (by omega)]
    rw [hload]
    cases hscan : crc16 inBuf length with
    | error f =>
        have hlen : (inBuf.take length.toNat).length = length.toNat :=
          List.length_take_of_le (by omega)
        have hok := crc16_append (show (inBuf.take length.toNat).length < 2 ^ 32 by omega)
          (inBuf.drop length.toNat)
        rw [List.take_append_drop, hlen, Int.toNat_of_nonneg hpos, hscan] at hok
        cases hok
    | ok crc => rfl

end LinuxCodeDemos.TcpFile

/-
  LinuxCodeDemos.NailPrinter.SendFile

  `do_send_file` of `NailPrinterServer/MainServer.c`: the reply with the picture.

  - A picture that was opened is what `lseek` reports of it and the bytes that can be read.
  - `read` refuses a count that is negative as a `ssize_t` and stores nothing.
  - `total_cnt` counts what was written to `soutput`; behind it are the zeros of the `memset`.

  The reply is the number `N`, a comma and `N + 1` bytes, one more than it says (`doSendFile_eq`).
  The buffers hold a picture of up to 96948 bytes (`doSendFile_ok_iff`).
-/

import LinuxCodeDemos.NailPrinter.Args
import LinuxCodeDemos.NailPrinter.Base64

namespace LinuxCodeDemos.NailPrinter

open Lib

/-- The size of `soutput`, `sendbuf` and `sfilebuf`. -/
def fileBufSize : Nat := 128 * 1024

/-- `BUFFER_SIZE`. -/
def bufferSize : Nat := 1024

/-- `./picture.jpg` as it was opened. -/
structure Opened where
  size : Int
  data : List UInt8
  deriving DecidableEq, Repr

/-- An `off_t` stored into an `int`. -/
def toInt (n : Int) : Int := n.bmod (2 ^ 32)

/-- `bzero` and `read`. -/
def readPicture (data : List UInt8) (fileSize : Int) : Except Fault (List UInt8) :=
  store (List.replicate fileBufSize 0) 0 (data.take fileSize.toNat)

/-- What `%d` prints of a number that is not negative. -/
def decimal (n : Nat) : List UInt8 := (Nat.toDigits 10 n).map fun c => UInt8.ofNat c.toNat

/-- The loop for `last`, which has come down to `i`. -/
def scanDown (buffer : List UInt8) : Nat → Nat
  | 0 => 0
  | i + 1 => if buffer.getD i 0 ≠ 0 then i else scanDown buffer i

/-- From the `memset` of `buffer` to the `write`: the bytes that are sent. -/
def assemble (soutput : List UInt8) (totalCnt : Nat) : Except Fault (List UInt8) := do
  let buffer ← store (List.replicate bufferSize 0) 0 (decimal totalCnt ++ [0])
  let last := scanDown buffer bufferSize
  let sendbuf ← emit fileBufSize [] (← loadBytes buffer 0 (last + 1))
  let sendbuf ← emit fileBufSize sendbuf [comma]
  emit fileBufSize sendbuf (← loadBytes soutput 0 (totalCnt + 1))

/-- From the encoder to the `write`. -/
def sendEncoded (sfilebuf : List UInt8) (fileSize : Int) : Except Fault (List UInt8) := do
  let (s, soutput) ← base64EncodeBlock fileBufSize sfilebuf fileSize base64InitEncodestate []
  let soutput ← base64EncodeBlockend fileBufSize s soutput
  let soutput ← emit fileBufSize soutput [0]
  assemble (soutput ++ List.replicate (fileBufSize - soutput.length) 0) soutput.length

/-- `do_send_file`: the bytes that it sends, none if there is no picture. -/
def doSendFile : Option Opened → Except Fault (Option (List UInt8))
  | none => .ok none
  | some picture => do
      let fileSize := toInt picture.size
      let sfilebuf ← readPicture picture.data fileSize
      let message ← sendEncoded sfilebuf fileSize
      .ok (some message)

-- ============================================================================
-- The number in front
-- ============================================================================

theorem digit_range {n : Nat} {c : Char} (h : c ∈ Nat.toDigits 10 n) :
    48 ≤ c.toNat ∧ c.toNat ≤ 57 := by
  have hdigit := Nat.isDigit_of_mem_toDigits (by omega) (by omega) h
  simp only [Char.isDigit, Bool.and_eq_true, decide_eq_true_eq, ge_iff_le] at hdigit
  exact ⟨UInt32.le_iff_toNat_le.mp hdigit.1, UInt32.le_iff_toNat_le.mp hdigit.2⟩

theorem decimal_ne_zero {n : Nat} {b : UInt8} (h : b ∈ decimal n) : b ≠ 0 := by
  obtain ⟨c, hc, rfl⟩ := List.mem_map.mp h
  have hrange := digit_range hc
  intro hzero
  have hnat : (UInt8.ofNat c.toNat).toNat = 0 := congrArg UInt8.toNat hzero
  rw [UInt8.toNat_ofNat'] at hnat
  omega

theorem length_decimal_le_iff {n k : Nat} (hk : 0 < k) : (decimal n).length ≤ k ↔ n < 10 ^ k := by
  rw [decimal, List.length_map]
  exact Nat.length_toDigits_le_iff (by omega) hk

theorem length_decimal_pos (n : Nat) : 0 < (decimal n).length := by
  rw [decimal, List.length_map]
  exact Nat.length_toDigits_pos

/-- The scan stops at the last byte of a text without zeros. -/
theorem scanDown_eq {text : List UInt8} (hne : text ≠ []) (htext : ∀ b ∈ text, b ≠ 0) (k : Nat) :
    ∀ m, m ≤ k → scanDown (text ++ List.replicate k 0) (text.length + m) = text.length - 1 := by
  intro m
  induction m with
  | zero =>
      intro _
      have hpos := List.length_pos_iff.mpr hne
      obtain ⟨i, hi⟩ : ∃ i, text.length = i + 1 := ⟨text.length - 1, by omega⟩
      rw [Nat.add_zero, hi, scanDown, if_pos, Nat.add_sub_cancel]
      rw [List.getD_append _ _ _ _ (by omega), List.getD_eq_getElem _ _ (by omega)]
      exact htext _ (List.getElem_mem _)
  | succ m ih =>
      intro hm
      rw [← Nat.add_assoc, scanDown, if_neg, ih (by omega)]
      rw [List.getD_append_right _ _ _ _ (by omega), Nat.add_sub_cancel_left,
        List.getD_replicate _ (by omega)]
      exact fun h => h rfl

/-- `buffer` after the `sprintf`. -/
theorem store_decimal {n : Nat} (hn : (decimal n).length < bufferSize) :
    store (List.replicate bufferSize 0) 0 (decimal n ++ [0])
      = .ok (decimal n ++ List.replicate (bufferSize - (decimal n).length) 0) := by
  have hlen : (decimal n ++ [0]).length = (decimal n).length + 1 := by
    rw [List.length_append]
    rfl
  rw [store_of_le (by rw [hlen, List.length_replicate, Nat.zero_add]; exact hn), splice,
    List.take_zero, List.nil_append, hlen, List.drop_replicate, List.append_assoc,
    show bufferSize - (decimal n).length = (bufferSize - (0 + ((decimal n).length + 1))) + 1 by omega,
    List.replicate_succ]
  rfl

/-- The bytes of the number that are copied. -/
theorem loadBytes_decimal {n : Nat} (hn : (decimal n).length < bufferSize) :
    loadBytes (decimal n ++ List.replicate (bufferSize - (decimal n).length) 0) 0
        (scanDown (decimal n ++ List.replicate (bufferSize - (decimal n).length) 0) bufferSize + 1)
      = .ok (decimal n) := by
  have hpos := length_decimal_pos n
  have hscan := scanDown_eq (List.length_pos_iff.mp hpos) (fun b hb => decimal_ne_zero hb)
    (bufferSize - (decimal n).length) _ (Nat.le_refl _)
  rw [Nat.add_sub_cancel' (Nat.le_of_lt hn)] at hscan
  rw [hscan, Nat.sub_add_cancel hpos, loadBytes_of_le (by rw [List.length_append]; omega),
    List.drop_zero, List.take_left]

-- ============================================================================
-- The reply
-- ============================================================================

/-- The reply is the number, a comma and the bytes up to `soutput[total_cnt]`. -/
theorem assemble_eq {soutput : List UInt8} {totalCnt : Nat}
    (hdigits : (decimal totalCnt).length < bufferSize) :
    assemble soutput totalCnt = (do
      let body ← loadBytes soutput 0 (totalCnt + 1)
      emit fileBufSize [] (decimal totalCnt ++ comma :: body)) := by
  have hnumber : emit fileBufSize [] (decimal totalCnt) = .ok (decimal totalCnt) :=
    emit_of_le (by rw [fileBufSize, List.length_nil]; rw [bufferSize] at hdigits; omega)
  have hcomma : emit fileBufSize (decimal totalCnt) [comma] = .ok (decimal totalCnt ++ [comma]) :=
    emit_of_le (by
      rw [fileBufSize, List.length_singleton]
      rw [bufferSize] at hdigits
      omega)
  simp only [assemble, store_decimal hdigits, loadBytes_decimal hdigits, hnumber, hcomma,
    Except.bind, bind]
  cases loadBytes soutput 0 (totalCnt + 1) with
  | error e => rfl
  | ok body =>
      show emit fileBufSize ([] ++ (decimal totalCnt ++ [comma])) body = _
      rw [emit_append, List.append_assoc]
      rfl

/-- The reply to a text that fits: the number counts the text and one zero, two are sent. -/
theorem assemble_text {text : List UInt8}
    (hfits : (decimal (text.length + 1)).length + 1 + (text.length + 2) ≤ fileBufSize)
    (hdigits : (decimal (text.length + 1)).length < bufferSize) :
    assemble (text ++ [0] ++ List.replicate (fileBufSize - (text ++ [0]).length) 0)
        (text ++ [0]).length
      = .ok (decimal (text.length + 1) ++ comma :: (text ++ [0, 0])) := by
  have hlen : (text ++ [(0 : UInt8)]).length = text.length + 1 := by
    rw [List.length_append]
    rfl
  have hsoutput : text ++ [0] ++ List.replicate (fileBufSize - (text.length + 1)) 0
      = text ++ [0, 0] ++ List.replicate (fileBufSize - (text.length + 2)) (0 : UInt8) := by
    rw [show fileBufSize - (text.length + 1) = (fileBufSize - (text.length + 2)) + 1 by omega,
      List.replicate_succ, List.append_assoc, List.append_assoc]
    rfl
  have htwo : (text ++ [(0 : UInt8), 0]).length = text.length + 1 + 1 := by
    rw [List.length_append]
    rfl
  have hbody : loadBytes (text ++ [0, 0] ++ List.replicate (fileBufSize - (text.length + 2)) 0) 0
      (text.length + 1 + 1) = .ok (text ++ [0, 0]) := by
    rw [loadBytes_of_le (by rw [List.length_append, htwo]; omega), List.drop_zero, ← htwo,
      List.take_left]
  rw [hlen, assemble_eq hdigits, hsoutput, hbody]
  show emit fileBufSize [] _ = _
  rw [emit_of_le, List.nil_append]
  rw [List.length_append, List.length_cons, htwo, List.length_nil]
  omega

/-- No longer reply is sent. -/
theorem length_le_of_assemble {soutput message : List UInt8} {totalCnt : Nat}
    (hdigits : (decimal totalCnt).length < bufferSize)
    (h : assemble soutput totalCnt = .ok message) :
    (decimal totalCnt).length + 1 + (totalCnt + 1) ≤ fileBufSize := by
  rw [assemble_eq hdigits, loadBytes] at h
  split at h
  · next hin =>
    have hbody : ((soutput.drop 0).take (totalCnt + 1)).length = totalCnt + 1 := by
      rw [List.length_take, List.length_drop]
      omega
    by_contra hlong
    have hfail : emit fileBufSize [] (decimal totalCnt ++ comma :: (soutput.drop 0).take (totalCnt + 1))
        = .error .write := by
      apply emit_of_lt
      rw [List.length_append, List.length_cons, hbody, List.length_nil]
      omega
    rw [show (emit fileBufSize [] _ : Except Fault (List UInt8)) = .ok message from h] at hfail
    cases hfail
  · cases h

/-- The largest picture that the buffers hold. -/
def maxPicture : Nat := 96948

/-- What is sent for a picture. -/
def reply (file : List UInt8) : List UInt8 :=
  decimal ((base64Text file).length + 1) ++ comma :: (base64Text file ++ [0, 0])

section Sends

variable {plain rest : List UInt8}

/-- `soutput` is filled with the text and a zero. -/
theorem sendEncoded_eq :
    sendEncoded (plain ++ rest) plain.length = (do
      let soutput ← emit fileBufSize [] (base64Text plain ++ [0])
      assemble (soutput ++ List.replicate (fileBufSize - soutput.length) 0) soutput.length) := by
  rw [sendEncoded, base64EncodeBlock_eq plain rest (Nat.zero_le _), ← emit_bind, base64Text,
    ← emit_bind]
  cases emit fileBufSize [] (encodeBytes base64InitEncodestate plain).2 with
  | error e => rfl
  | ok out =>
      show (emit fileBufSize out (blockend (encodeBytes base64InitEncodestate plain).1) >>= _)
        = ((emit fileBufSize out (blockend (encodeBytes base64InitEncodestate plain).1)
            >>= fun out => emit fileBufSize out [0]) >>= _)
      cases emit fileBufSize out (blockend (encodeBytes base64InitEncodestate plain).1) with
      | error e => rfl
      | ok out => rfl

theorem sendEncoded_of_le (h : plain.length ≤ maxPicture) :
    sendEncoded (plain ++ rest) plain.length = .ok (reply plain) := by
  have hlen := length_base64Text plain
  have hdigits : (decimal ((base64Text plain).length + 1)).length ≤ 6 := by
    rw [length_decimal_le_iff (by omega)]
    rw [maxPicture] at h
    omega
  rw [maxPicture] at h
  have hzero : (base64Text plain ++ [(0 : UInt8)]).length = (base64Text plain).length + 1 := by
    rw [List.length_append]
    rfl
  rw [sendEncoded_eq, emit_of_le (by rw [hzero, List.length_nil, fileBufSize]; omega)]
  exact assemble_text (by rw [fileBufSize]; omega) (by rw [bufferSize]; omega)

theorem not_sendEncoded_of_lt (h : maxPicture < plain.length) :
    ¬ ∃ message, sendEncoded (plain ++ rest) plain.length = .ok message := by
  rintro ⟨message, hsend⟩
  have hlen := length_base64Text plain
  rw [maxPicture] at h
  have hzero : (base64Text plain ++ [(0 : UInt8)]).length = (base64Text plain).length + 1 := by
    rw [List.length_append]
    rfl
  rw [sendEncoded_eq] at hsend
  by_cases hle : (base64Text plain).length + 1 ≤ fileBufSize
  · rw [emit_of_le (by rw [hzero, List.length_nil]; omega), List.nil_append] at hsend
    rw [fileBufSize] at hle
    have hsix : ¬ (decimal ((base64Text plain).length + 1)).length ≤ 5 := by
      rw [length_decimal_le_iff (by omega)]
      omega
    have hdigits : (decimal ((base64Text plain).length + 1)).length ≤ 6 := by
      rw [length_decimal_le_iff (by omega)]
      omega
    rw [← hzero] at hsix hdigits
    have hmax := length_le_of_assemble (by rw [bufferSize]; omega) hsend
    rw [hzero, fileBufSize] at hmax
    rw [hzero] at hsix
    omega
  · rw [emit_of_lt (by rw [hzero, List.length_nil]; omega)] at hsend
    cases hsend

end Sends

-- ============================================================================
-- Bounds
-- ============================================================================

theorem length_readPicture {data sfilebuf : List UInt8} {fileSize : Int}
    (h : readPicture data fileSize = .ok sfilebuf) : sfilebuf.length = fileBufSize := by
  rw [length_of_store h, List.length_replicate]

/-- The buffers hold the reply exactly for an `int` from 0 to 96948. -/
theorem readAndSend_ok_iff (data : List UInt8) (fileSize : Int) :
    (∃ message, (readPicture data fileSize >>= fun sfilebuf => sendEncoded sfilebuf fileSize)
      = .ok message) ↔ 0 ≤ fileSize ∧ fileSize ≤ 96948 := by
  cases hread : readPicture data fileSize with
  | error e =>
      -- `read` leaves `sfilebuf` only for a size that is far too large
      have hlarge : (fileBufSize : Int) < fileSize := by
        by_contra hle
        rw [readPicture, store_of_le (by
          rw [Nat.zero_add, List.length_take, List.length_replicate]
          omega)] at hread
        cases hread
      rw [fileBufSize] at hlarge
      refine iff_of_false ?_ (by omega)
      rintro ⟨message, hmessage⟩
      cases hmessage
  | ok sfilebuf =>
      have hlen := length_readPicture hread
      show (∃ message, sendEncoded sfilebuf fileSize = .ok message) ↔ _
      by_cases hin : 0 ≤ fileSize ∧ fileSize ≤ fileBufSize
      · obtain ⟨n, rfl⟩ := Int.eq_ofNat_of_zero_le hin.1
        have htake : (sfilebuf.take n).length = n := by
          rw [List.length_take]
          omega
        rw [← List.take_append_drop n sfilebuf]
        by_cases hle : n ≤ maxPicture
        · refine iff_of_true ⟨reply (sfilebuf.take n), ?_⟩ ⟨hin.1, ?_⟩
          · have hsend := @sendEncoded_of_le (sfilebuf.take n) (sfilebuf.drop n)
              (by rw [htake]; exact hle)
            rwa [htake] at hsend
          · rw [maxPicture] at hle
            omega
        · refine iff_of_false ?_ ?_
          · have hnot := @not_sendEncoded_of_lt (sfilebuf.take n) (sfilebuf.drop n)
              (by rw [htake]; omega)
            rwa [htake] at hnot
          · rw [maxPicture] at hle
            omega
      · rw [fileBufSize] at hin
        refine iff_of_false ?_ (by omega)
        rintro ⟨message, hmessage⟩
        obtain ⟨e, he⟩ := @base64EncodeBlock_of_out fileBufSize sfilebuf [] base64InitEncodestate
          fileSize (by rw [hlen, fileBufSize]; omega)
        rw [sendEncoded, he] at hmessage
        cases hmessage

theorem doSendFile_some (picture : Opened) :
    doSendFile (some picture)
      = (readPicture picture.data (toInt picture.size) >>= fun sfilebuf =>
          sendEncoded sfilebuf (toInt picture.size)).map some := by
  rw [doSendFile]
  cases readPicture picture.data (toInt picture.size) with
  | error e => rfl
  | ok sfilebuf =>
      show (sendEncoded sfilebuf (toInt picture.size) >>= _)
        = (sendEncoded sfilebuf (toInt picture.size)).map some
      cases sendEncoded sfilebuf (toInt picture.size) with
      | error e => rfl
      | ok message => rfl

theorem exists_ok_map_some {x : Except Fault (List UInt8)} :
    (∃ reply, x.map some = .ok reply) ↔ ∃ message, x = .ok message := by
  cases x with
  | error e =>
      refine iff_of_false ?_ ?_
      · rintro ⟨reply, h⟩
        cases h
      · rintro ⟨message, h⟩
        cases h
  | ok message => exact iff_of_true ⟨_, rfl⟩ ⟨_, rfl⟩

/-- No buffer overflows exactly if the size that `lseek` reports is, as an `int`, from 0 to
    96948. -/
theorem doSendFile_ok_iff (picture : Opened) :
    (∃ reply, doSendFile (some picture) = .ok reply) ↔
      0 ≤ toInt picture.size ∧ toInt picture.size ≤ 96948 := by
  rw [doSendFile_some, exists_ok_map_some, readAndSend_ok_iff]

/-- A picture of 96949 bytes. -/
theorem doSendFile_overflow :
    ¬ ∃ reply, doSendFile (some { size := 96949, data := List.replicate 96949 0 }) = .ok reply := by
  rw [doSendFile_some, exists_ok_map_some, readAndSend_ok_iff]
  exact fun h => absurd h.2 (by decide)

-- ============================================================================
-- Alignment
-- ============================================================================

theorem comma_notMem_decimal (n : Nat) : comma ∉ decimal n := by
  intro hmem
  obtain ⟨c, hc, heq⟩ := List.mem_map.mp hmem
  have hrange := digit_range hc
  have hnat : (UInt8.ofNat c.toNat).toNat = 44 := congrArg UInt8.toNat heq
  rw [UInt8.toNat_ofNat'] at hnat
  omega

theorem decimal_inj {m n : Nat} (h : decimal m = decimal n) : m = n := by
  have hback : ∀ k, (decimal k).map (fun b => Char.ofNat b.toNat) = Nat.toDigits 10 k := by
    intro k
    rw [decimal, List.map_map]
    refine (List.map_congr_left fun c hc => ?_).trans (List.map_id _)
    have hrange := digit_range hc
    show Char.ofNat (UInt8.ofNat c.toNat).toNat = c
    rw [UInt8.toNat_ofNat', Nat.mod_eq_of_lt (by omega), Char.ofNat_toNat]
  have hdigits : Nat.toDigits 10 m = Nat.toDigits 10 n := by rw [← hback m, ← hback n, h]
  rw [← @Nat.ofDigitChars_ten_toDigits m, hdigits, Nat.ofDigitChars_ten_toDigits]

/-- The reply to a picture that fits. -/
theorem doSendFile_eq {file : List UInt8} (hfits : file.length ≤ maxPicture) :
    doSendFile (some { size := file.length, data := file }) = .ok (some (reply file)) := by
  have hsmall := hfits
  rw [maxPicture] at hsmall
  have hint : toInt (file.length : Int) = file.length := by
    apply Int.bmod_eq_of_le
    · omega
    · omega
  have hread : readPicture file (file.length : Int)
      = .ok (file ++ List.replicate (fileBufSize - file.length) 0) := by
    rw [readPicture, Int.toNat_natCast, List.take_length,
      store_of_le (by rw [List.length_replicate, fileBufSize]; omega), splice, List.take_zero,
      List.nil_append, Nat.zero_add, List.drop_replicate]
  rw [doSendFile_some]
  show (readPicture file (toInt file.length) >>= _).map some = _
  rw [hint, hread]
  show (sendEncoded (file ++ _) (file.length : Int)).map some = _
  rw [sendEncoded_of_le hfits]
  rfl

/-- The reply is a number `N`, a comma and `N` bytes: the text and one zero. -/
def LengthPrefixed (message text : List UInt8) : Prop :=
  message = decimal (text.length + 1) ++ comma :: (text ++ [0])

/-- Behind the comma there is always one byte more than the number says. -/
theorem doSendFile_misaligned {file : List UInt8} (hfits : file.length ≤ maxPicture) :
    ∃ message, doSendFile (some { size := file.length, data := file }) = .ok (some message) ∧
      ¬ LengthPrefixed message (base64Text file) ∧
      ∀ n body, message = decimal n ++ comma :: body → body.length = n + 1 := by
  have hbody : ∀ n body, reply file = decimal n ++ comma :: body → body.length = n + 1 := by
    intro n body heq
    have hsplit := congrArg (List.splitOn comma) heq
    rw [reply, List.splitOn_append_cons_self_of_not_mem (comma_notMem_decimal _),
      List.splitOn_append_cons_self_of_not_mem (comma_notMem_decimal _)] at hsplit
    have hn := decimal_inj (List.cons.inj hsplit).1
    rw [reply, hn] at heq
    have htail := (List.cons.inj (List.append_cancel_left heq)).2
    rw [← htail, ← hn, List.length_append]
    rfl
  refine ⟨reply file, doSendFile_eq hfits, ?_, hbody⟩
  intro hprefixed
  have hlen := hbody _ _ hprefixed
  rw [List.length_append] at hlen
  exact absurd hlen (Nat.ne_of_lt (Nat.lt_succ_self _))

theorem doSendFile_misaligned_man :
    ∃ message, doSendFile (some { size := (3 : Nat), data := [77, 97, 110] }) = .ok (some message) ∧
      ¬ LengthPrefixed message (base64Text [77, 97, 110]) ∧
      ∀ n body, message = decimal n ++ comma :: body → body.length = n + 1 :=
  @doSendFile_misaligned [77, 97, 110] (by decide)

/-- The reply to the three bytes `Man` announces 6 bytes and has 7. -/
theorem doSendFile_man :
    doSendFile (some { size := 3, data := [77, 97, 110] })
      = .ok (some [54, 44, 84, 87, 70, 117, 10, 0, 0]) ∧
    ¬ LengthPrefixed [54, 44, 84, 87, 70, 117, 10, 0, 0] (base64Text [77, 97, 110]) := by
  have htext : base64Text [77, 97, 110] = [84, 87, 70, 117, 10] := by decide
  refine ⟨?_, ?_⟩
  · have hsend := @doSendFile_eq [77, 97, 110] (by decide)
    rw [reply, htext] at hsend
    exact hsend
  · rw [LengthPrefixed, htext]
    decide

end LinuxCodeDemos.NailPrinter

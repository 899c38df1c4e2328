/-
  LinuxCodeDemos.NailPrinter.RoundTrip

  What `cdecode.c` makes of a text of `cencode.c`, and what an upload leaves in `printfile.png`.

  - Both coders are coroutines: a caller hands over its input in pieces, and the state between two
    calls says where in a group of three bytes (or four characters) the coder stands.
  - `Coupled` relates the two states after any number of bytes; it is kept by every byte
    (`Coupled.encodeByte`).
  - Where `char` is unsigned, as on the ARM boards that the server is built for, `fragment < 0` is
    never true, and the decoder takes the newlines and the `=` of the text for code.
-/

import Mathlib.Tactic.IntervalCases
import LinuxCodeDemos.Lib.File
import LinuxCodeDemos.NailPrinter.DecodeBlock
import LinuxCodeDemos.NailPrinter.ReceiveFile

namespace LinuxCodeDemos.NailPrinter

open Lib

-- ============================================================================
-- Coding in pieces
-- ============================================================================

/-- `base64_encode_block` for one piece after the other. -/
def encodePieces (capacity : Nat) :
    List (List UInt8) → EncodeState → List UInt8 → Except Fault (EncodeState × List UInt8)
  | [], s, out => .ok (s, out)
  | piece :: pieces, s, out => do
      let (s, out) ← base64EncodeBlock capacity piece piece.length s out
      encodePieces capacity pieces s out

/-- A file encoded in pieces, up to `base64_encode_blockend`. -/
def encodeFile (capacity : Nat) (pieces : List (List UInt8)) : Except Fault (List UInt8) := do
  let (s, out) ← encodePieces capacity pieces base64InitEncodestate []
  base64EncodeBlockend capacity s out

section Pieces

variable {capacity : Nat}

theorem encodeBytes_append (s : EncodeState) (xs ys : List UInt8) :
    encodeBytes s (xs ++ ys)
      = ((encodeBytes (encodeBytes s xs).1 ys).1,
          (encodeBytes s xs).2 ++ (encodeBytes (encodeBytes s xs).1 ys).2) := by
  induction xs generalizing s with
  | nil => rfl
  | cons x xs ih =>
      rw [List.cons_append, encodeBytes, ih, encodeBytes]
      simp only [List.append_assoc]

/-- The pieces do not matter to the encoder. -/
theorem encodePieces_eq (pieces : List (List UInt8)) {s : EncodeState} {out : List UInt8}
    (hout : out.length ≤ capacity) :
    encodePieces capacity pieces s out
      = (emit capacity out (encodeBytes s pieces.flatten).2).map
          fun out => ((encodeBytes s pieces.flatten).1, out) := by
  induction pieces generalizing s out with
  | nil =>
      rw [encodePieces, List.flatten_nil, encodeBytes, emit_of_le hout, List.append_nil]
      rfl
  | cons piece pieces ih =>
      have hblock := @base64EncodeBlock_eq capacity piece [] s out hout
      rw [List.append_nil] at hblock
      rw [encodePieces, hblock, List.flatten_cons, encodeBytes_append]
      by_cases hle : out.length + (encodeBytes s piece).2.length ≤ capacity
      · rw [emit_of_le hle, ← emit_append]
        exact ih (by rw [List.length_append]; exact hle)
      · rw [emit_of_lt (Nat.not_le.mp hle), emit_of_lt (by rw [List.length_append]; omega)]
        rfl

theorem encodeFile_eq (pieces : List (List UInt8)) :
    encodeFile capacity pieces = emit capacity [] (base64Text pieces.flatten) := by
  rw [encodeFile, encodePieces_eq pieces (Nat.zero_le _), base64Text, ← emit_bind]
  cases emit capacity [] (encodeBytes base64InitEncodestate pieces.flatten).2 with
  | error e => rfl
  | ok out => rfl

end Pieces

-- ============================================================================
-- Groups of six bits
-- ============================================================================

/-- The six bits sent for the first byte of a group. -/
def sextetA (b : UInt8) : UInt8 := (b &&& 0xfc) >>> 2

/-- The six bits sent at the second byte `c` of a group, with two of `b`. -/
def sextetB (b c : UInt8) : UInt8 := (b &&& 0x03) <<< 4 ||| (c &&& 0xf0) >>> 4

/-- The six bits sent first at the third byte `c` of a group, with four of `b`. -/
def sextetC (b c : UInt8) : UInt8 := (b &&& 0x0f) <<< 2 ||| (c &&& 0xc0) >>> 6

theorem sextetA_bits (b : UInt8) :
    sextetA b &&& 0x3f = sextetA b ∧ (sextetA b &&& 0x3f) <<< (2 : UInt8) = b &&& 0xfc := by
  rw [sextetA]
  refine ⟨?_, ?_⟩
  all_goals
    apply UInt8.toBitVec_inj.mp
    simp
    ext i hi
    simp
    interval_cases i <;> simp

theorem sextetB_bits (b c : UInt8) :
    sextetB b c &&& 0x3f = sextetB b c ∧
      (b &&& 0xfc) ||| (sextetB b c &&& 0x30) >>> (4 : UInt8) = b ∧
      (sextetB b c &&& 0x0f) <<< (4 : UInt8) = c &&& 0xf0 := by
  rw [sextetB]
  refine ⟨?_, ?_, ?_⟩
  all_goals
    apply UInt8.toBitVec_inj.mp
    simp
    ext i hi
    simp
    interval_cases i <;> simp

theorem sextetC_bits (b c : UInt8) :
    sextetC b c &&& 0x3f = sextetC b c ∧
      (b &&& 0xf0) ||| (sextetC b c &&& 0x3c) >>> (2 : UInt8) = b ∧
      (sextetC b c &&& 0x03) <<< (6 : UInt8) ||| (c &&& 0x3f &&& 0x3f) = c := by
  rw [sextetC]
  refine ⟨?_, ?_, ?_⟩
  all_goals
    apply UInt8.toBitVec_inj.mp
    simp
    ext i hi
    simp
    interval_cases i <;> simp

/-- The decoding table inverts the encoding one. -/
theorem base64DecodeValue_encodeValue {v : UInt8} (hv : v &&& 0x3f = v) :
    base64DecodeValue (base64EncodeValue v) = v ∧ v < 128 := by
  have hall : ∀ k : Fin 64, base64DecodeValue (base64EncodeValue (UInt8.ofNat k)) = UInt8.ofNat k ∧
      UInt8.ofNat k < 128 := by
    decide +kernel
  have hlt : v.toNat < 64 := by
    rw [← hv, UInt8.toNat_and]
    exact Nat.lt_succ_of_le Nat.and_le_right
  have hk := hall ⟨v.toNat, hlt⟩
  rwa [UInt8.ofNat_toNat] at hk

-- ============================================================================
-- The two coders in step
-- ============================================================================

/-- The decoder has been through what the encoder wrote for `file`.  Of the last byte it may still
    lack the bits that the encoder holds in `result`. -/
def Coupled (s : EncodeState) (d : Decoded) (file : List UInt8) : Prop :=
  match s.step with
  | .stepA => d.step = .stepA ∧ d.plain = file
  | .stepB => ∃ b, file = d.plain ++ [b] ∧ d.step = .stepB ∧ d.plainchar = b &&& 0xfc ∧
      s.result = (b &&& 0x03) <<< 4
  | .stepC => ∃ b, file = d.plain ++ [b] ∧ d.step = .stepC ∧ d.plainchar = b &&& 0xf0 ∧
      s.result = (b &&& 0x0f) <<< 2

section Coding

variable {signedChar : Bool} {s : EncodeState} {d : Decoded} {file : List UInt8}

/-- A character that stands for six bits is never skipped. -/
theorem decodeByte_sextet {v : UInt8} (hv : v &&& 0x3f = v) :
    decodeByte signedChar d (base64EncodeValue v) =
      match d.step with
      | .stepA => { d with step := .stepB, plainchar := (v &&& 0x3f) <<< 2 }
      | .stepB =>
          { step := .stepC, plain := d.plain ++ [d.plainchar ||| (v &&& 0x30) >>> 4]
            plainchar := (v &&& 0x0f) <<< 4 }
      | .stepC =>
          { step := .stepD, plain := d.plain ++ [d.plainchar ||| (v &&& 0x3c) >>> 2]
            plainchar := (v &&& 0x03) <<< 6 }
      | .stepD => { d with step := .stepA, plain := d.plain ++ [d.plainchar ||| (v &&& 0x3f)] } := by
  obtain ⟨hvalue, hlt⟩ := base64DecodeValue_encodeValue hv
  rw [decodeByte, hvalue]
  exact if_neg (fun h => absurd hlt (UInt8.not_lt.mpr h.2))

/-- Newlines and `=` are skipped where `char` is signed. -/
theorem decodeByte_skip {code : UInt8} (h : code = newline ∨ code = equalsSign) :
    decodeByte true d code = d := by
  rw [decodeByte, if_pos]
  rcases h with rfl | rfl
  · exact ⟨rfl, by decide⟩
  · exact ⟨rfl, by decide⟩

theorem Coupled.encodeByte (h : Coupled s d file) (b : UInt8)
    (hline : signedChar = true ∨ (s.step = .stepC → s.stepcount + 1 ≠ charsPerLine / 4)) :
    Coupled (encodeByte s b).1 (decodeBytes signedChar d (encodeByte s b).2) (file ++ [b]) := by
  rw [Coupled] at h
  rw [NailPrinter.encodeByte]
  cases hstep : s.step with
  | stepA =>
      rw [hstep] at h
      obtain ⟨hd, rfl⟩ := h
      obtain ⟨hbits, hup⟩ := sextetA_bits b
      dsimp only
      rw [decodeBytes, List.foldl_cons, List.foldl_nil, ← sextetA, decodeByte_sextet hbits, hd]
      exact ⟨b, rfl, rfl, hup, rfl⟩
  | stepB =>
      rw [hstep] at h
      obtain ⟨a, rfl, hd, hchar, hresult⟩ := h
      obtain ⟨hbits, hwhole, hup⟩ := sextetB_bits a b
      dsimp only
      rw [decodeBytes, List.foldl_cons, List.foldl_nil, hresult, ← sextetB,
        decodeByte_sextet hbits, hd]
      refine ⟨b, ?_, rfl, hup, rfl⟩
      show d.plain ++ [a] ++ [b] = d.plain ++ [_] ++ [b]
      rw [hchar, hwhole]
  | stepC =>
      rw [hstep] at h
      obtain ⟨a, rfl, hd, hchar, hresult⟩ := h
      obtain ⟨hbits, hwhole, hup⟩ := sextetC_bits a b
      have hlast : b &&& 0x3f &&& 0x3f = b &&& 0x3f := by
        rw [UInt8.and_assoc, UInt8.and_self]
      -- both characters of the third byte
      have hgroup : decodeBytes signedChar d
          [base64EncodeValue (s.result ||| (b &&& 0xc0) >>> 6), base64EncodeValue (b &&& 0x3f)]
          = { step := .stepA, plain := d.plain ++ [a] ++ [b]
              plainchar := (sextetC a b &&& 0x03) <<< 6 } := by
        rw [decodeBytes, List.foldl_cons, List.foldl_cons, List.foldl_nil, hresult, ← sextetC,
          decodeByte_sextet hbits, hd]
        dsimp only
        rw [decodeByte_sextet hlast]
        dsimp only
        rw [hchar, hwhole, hup]
      dsimp only
      by_cases hnewline : s.stepcount + 1 = charsPerLine / 4
      · rw [if_pos hnewline, decodeBytes_append, hgroup]
        obtain rfl := hline.resolve_right (fun hne => hne hstep hnewline)
        rw [decodeBytes, List.foldl_cons, List.foldl_nil, decodeByte_skip (.inl rfl)]
        exact ⟨rfl, rfl⟩
      · rw [if_neg hnewline, hgroup]
        exact ⟨rfl, rfl⟩

theorem mod_of_stepC {n : Nat} (h : stepAfter n = .stepC) : n % 3 = 2 := by
  rw [stepAfter] at h
  split at h
  · cases h
  · split at h
    · cases h
    · omega

/-- The bytes of a file, as long as no newline falls between them or newlines are skipped. -/
theorem Coupled.encodeBytes (h : Coupled s d file) {n : Nat} (hafter : After n s)
    (plain : List UInt8) (hline : signedChar = true ∨ n + plain.length < 54) :
    Coupled (encodeBytes s plain).1 (decodeBytes signedChar d (encodeBytes s plain).2)
      (file ++ plain) := by
  induction plain generalizing s d file n with
  | nil =>
      rw [List.append_nil]
      exact h
  | cons b plain ih =>
      have hcount := hafter.stepcount
      rw [List.length_cons] at hline
      have hnewline : signedChar = true ∨ (s.step = .stepC → s.stepcount + 1 ≠ charsPerLine / 4) := by
        refine hline.imp_right fun hlt hstep => ?_
        have hmod : n % 3 = 2 := mod_of_stepC (hafter.step.symm.trans hstep)
        rw [hcount, show charsPerLine / 4 = 18 from rfl]
        omega
      rw [NailPrinter.encodeBytes, decodeBytes_append, ← List.singleton_append, ← List.append_assoc]
      exact ih (h.encodeByte b hnewline) (hafter.encodeByte b).1
        (hline.imp_right fun hlt => by omega)

/-- The end of a text brings the rest of the last byte. -/
theorem Coupled.blockend (h : Coupled s d file) :
    (decodeBytes true d (blockend s)).plain = file := by
  have hskip : ∀ d : Decoded, decodeByte true d newline = d := fun d => decodeByte_skip (.inl rfl)
  have hequals : ∀ d : Decoded, decodeByte true d equalsSign = d :=
    fun d => decodeByte_skip (.inr rfl)
  rw [Coupled] at h
  rw [NailPrinter.blockend, decodeBytes]
  cases hstep : s.step with
  | stepA =>
      rw [hstep] at h
      rw [List.foldl_cons, List.foldl_nil, hskip]
      exact h.2
  | stepB =>
      rw [hstep] at h
      obtain ⟨a, rfl, hd, hchar, hresult⟩ := h
      obtain ⟨hbits, hwhole, -⟩ := sextetB_bits a 0
      have hpadded : s.result = sextetB a 0 := by
        rw [hresult, sextetB]
        exact (UInt8.or_zero).symm
      simp only [List.foldl_cons, List.foldl_nil, hskip, hequals]
      rw [hpadded, decodeByte_sextet hbits, hd]
      show d.plain ++ [_] = _
      rw [hchar, hwhole]
  | stepC =>
      rw [hstep] at h
      obtain ⟨a, rfl, hd, hchar, hresult⟩ := h
      obtain ⟨hbits, hwhole, -⟩ := sextetC_bits a 0
      have hpadded : s.result = sextetC a 0 := by
        rw [hresult, sextetC]
        exact (UInt8.or_zero).symm
      simp only [List.foldl_cons, List.foldl_nil, hskip, hequals]
      rw [hpadded, decodeByte_sextet hbits, hd]
      show d.plain ++ [_] = _
      rw [hchar, hwhole]

end Coding

-- ============================================================================
-- Both kinds of `char`
-- ============================================================================

/-- The pairs of bits that the byte at `plainchar` still lacks. -/
def DecodeStep.pairs : DecodeStep → Nat
  | .stepA => 0
  | .stepB => 3
  | .stepC => 2
  | .stepD => 1

/-- Where `char` is unsigned every character brings six bits. -/
theorem decodeByte_unsigned (d : Decoded) (code : UInt8) :
    4 * (decodeByte false d code).plain.length + (decodeByte false d code).step.pairs
      = 4 * d.plain.length + d.step.pairs + 3 := by
  rw [decodeByte, if_neg (fun h => Bool.false_ne_true h.1)]
  cases hstep : d.step with
  | stepA => rfl
  | stepB =>
      simp only [DecodeStep.pairs, List.length_append, List.length_singleton]
      omega
  | stepC =>
      simp only [DecodeStep.pairs, List.length_append, List.length_singleton]
      omega
  | stepD =>
      simp only [DecodeStep.pairs, List.length_append, List.length_singleton]
      omega

theorem decodeBytes_unsigned (d : Decoded) (code : List UInt8) :
    4 * (decodeBytes false d code).plain.length + (decodeBytes false d code).step.pairs
      = 4 * d.plain.length + d.step.pairs + 3 * code.length := by
  induction code generalizing d with
  | nil => rfl
  | cons byte code ih =>
      have hbyte := decodeByte_unsigned d byte
      have hrest := ih (decodeByte false d byte)
      rw [decodeBytes, List.foldl_cons, List.length_cons]
      rw [decodeBytes] at hrest
      omega

theorem DecodeStep.pairs_lt (step : DecodeStep) : step.pairs < 4 := by
  cases step <;> decide

section Texts

variable (file : List UInt8)

theorem coupled_start : Coupled base64InitEncodestate .start [] := ⟨rfl, rfl⟩

theorem decodeBytes_text : (decodeBytes true .start (base64Text file)).plain = file := by
  have hbytes := @Coupled.encodeBytes true _ _ _ coupled_start 0 after_init file (.inl rfl)
  rw [base64Text, decodeBytes_append]
  exact hbytes.blockend

/-- Unsigned characters: the text of whole groups on one line is decoded before the newline can do
    harm, every other text gives too many bytes. -/
theorem decodeBytes_text_unsigned_iff :
    (decodeBytes false .start (base64Text file)).plain = file ↔
      file.length % 3 = 0 ∧ file.length < 54 := by
  refine ⟨?_, ?_⟩
  · intro hplain
    have hcount := decodeBytes_unsigned .start (base64Text file)
    have hpairs := (decodeBytes false .start (base64Text file)).step.pairs_lt
    rw [hplain, length_base64Text, show Decoded.start.plain.length = 0 from rfl,
      show Decoded.start.step.pairs = 0 from rfl] at hcount
    -- padding and newlines are too many characters for the file
    have hpadding : file.length ≤ 3 * ((file.length + 2) / 3) := by omega
    have hwhole : file.length = 3 * ((file.length + 2) / 3) := by omega
    have hlines : file.length / 54 = 0 := by omega
    exact ⟨by omega, by omega⟩
  · rintro ⟨hmod, hlt⟩
    have hbytes := @Coupled.encodeBytes false _ _ _ coupled_start 0 after_init file
      (.inr (by omega))
    have hstep := (after_init.encodeBytes file).1.step
    rw [stepAfter, if_pos (by omega)] at hstep
    rw [Coupled, hstep] at hbytes
    rw [base64Text, decodeBytes_append, blockend, hstep]
    show (decodeByte false _ newline).plain = file
    rw [decodeByte, if_neg (fun h => Bool.false_ne_true h.1), hbytes.1]
    exact hbytes.2

theorem decodeBytes_text_iff (signedChar : Bool) :
    (decodeBytes signedChar .start (base64Text file)).plain = file ↔
      signedChar = true ∨ file.length % 3 = 0 ∧ file.length < 54 := by
  cases signedChar with
  | true => exact iff_of_true (decodeBytes_text _) (.inl rfl)
  | false =>
      rw [decodeBytes_text_unsigned_iff]
      exact ⟨.inr, fun h => h.resolve_left Bool.false_ne_true⟩

/-- The number of bytes that the decoder makes of the text of a file. -/
theorem length_decodeBytes_text (signedChar : Bool) :
    (decodeBytes signedChar .start (base64Text file)).plain.length
      = if signedChar then file.length else 3 * (base64Text file).length / 4 := by
  cases signedChar with
  | true => rw [decodeBytes_text, if_pos rfl]
  | false =>
      have hcount := decodeBytes_unsigned .start (base64Text file)
      have hpairs := (decodeBytes false .start (base64Text file)).step.pairs_lt
      rw [show Decoded.start.plain.length = 0 from rfl,
        show Decoded.start.step.pairs = 0 from rfl] at hcount
      rw [if_neg Bool.false_ne_true]
      omega

/-- A text has at least its newline. -/
theorem base64Text_ne_nil : base64Text file ≠ [] := by
  rw [← List.length_pos_iff, length_base64Text]
  exact Nat.succ_pos _

end Texts

/-- A file that is encoded in any pieces, its text decoded in any pieces into a block.  The decoder
    stays in the block exactly if it holds one byte more than is decoded; what is decoded is the file
    exactly if `char` is signed or the file is whole groups of three bytes on one line; behind it the
    block is as it was. -/
theorem base64_roundTrip_iff (signedChar : Bool) (capacity : Nat) (pieces codes : List (List UInt8))
    (text block : List UInt8) (hencode : encodeFile capacity pieces = .ok text)
    (hcodes : codes.flatten = text) :
    ((∃ o, decodePieces signedChar codes (.start block) = .ok o) ↔
      (if signedChar then pieces.flatten.length else 3 * text.length / 4) < block.length) ∧
    ∀ o, decodePieces signedChar codes (.start block) = .ok o →
      (o.plain = pieces.flatten ↔
        signedChar = true ∨ pieces.flatten.length % 3 = 0 ∧ pieces.flatten.length < 54) ∧
      ∀ i, o.cnt < i → o.block[i]? = block[i]? := by
  have htext : text = base64Text pieces.flatten := by
    rw [encodeFile_eq, emit] at hencode
    split at hencode
    · exact (Except.ok.inj hencode).symm
    · cases hencode
  subst htext
  have hne : codes ≠ [] := by
    rintro rfl
    exact base64Text_ne_nil pieces.flatten hcodes.symm
  refine ⟨?_, fun o hrun => ?_⟩
  · rw [decodePieces_ok_iff signedChar block hne, hcodes, length_decodeBytes_text]
  · obtain ⟨hplain, hbehind⟩ := decodePieces_spec signedChar block hne hrun
    refine ⟨?_, hbehind⟩
    rw [hplain, hcodes]
    exact decodeBytes_text_iff _ signedChar

/-- `Man` in two pieces, its text `TWFu` in two others, decoded into four bytes: the last one is
    touched. -/
theorem base64_roundTrip_man :
    ∃ o, decodePieces true [[84], [87, 70, 117, 10]] (.start [9, 9, 9, 9]) = .ok o ∧
      o.plain = [77, 97, 110] := by
  obtain ⟨hinside, hplain⟩ := base64_roundTrip_iff true 8 [[77], [97, 110]]
    [[84], [87, 70, 117, 10]] [84, 87, 70, 117, 10] [9, 9, 9, 9] (by decide) rfl
  obtain ⟨o, hrun⟩ := hinside.mpr (by decide)
  exact ⟨o, hrun, (hplain o hrun).1.mpr (.inl rfl)⟩

-- ============================================================================
-- Uploads
-- ============================================================================

/-- The flags of `open("printfile.png", O_WRONLY | O_CREAT)`. -/
def printfileFlags : OpenFlags := { creat := true, trunc := false }

/-- `isspace`. -/
def isSpace (b : UInt8) : Bool := b = 32 ∨ 9 ≤ b ∧ b ≤ 13

/-- The digits of a number, up to another byte. -/
def readDigits (n : Nat) : List UInt8 → Except Fault Nat
  | [] => .error .read
  | b :: text => if 48 ≤ b ∧ b ≤ 57 then readDigits (10 * n + (b.toNat - 48)) text else .ok n

/-- `atoi`; a number that is no `int` is undefined. -/
def atoi (text : List UInt8) : Except Fault Int := do
  match text.dropWhile isSpace with
  | 45 :: digits => checkInt (-(← readDigits 0 digits))
  | 43 :: digits => checkInt (← readDigits 0 digits)
  | digits => checkInt (← readDigits 0 digits)

/-- `do_receive_file` for the command in `buf`: what `printfile.png` holds afterwards, given what it
    held before.  `fresh` is what `malloc`ed memory holds. -/
def doReceiveFile (signedChar : Bool) (fresh : Nat → UInt8) (old : Option (List UInt8))
    (buf : List UInt8) (recvs : List Recv) : Except Fault (Option (List UInt8)) :=
  match openFile printfileFlags old with
  | none => .ok none
  | some file => do
      let rArgs ← getArgs buf 512
      let fileSize ← atoi (rArgs.argv.drop 2).flatten
      let s ← receiveLoop fileSize (.start fileSize) recvs
      let outputSize ← checkInt (fileSize * 2)
      let output := (List.range outputSize.toNat).map fresh
      let o ← decodeBlock signedChar s.filebuf fileSize (.start output)
      let output ← store o.block o.cnt [0]
      let bytes ← loadBytes output 0 o.cnt
      .ok (some (file.write bytes).content)

section Uploads

variable {signedChar : Bool} {n : Nat}

end Uploads

/-- A call of `do_receive_file` that stays in its blocks keeps to the bounds of the upload. -/
theorem receiveFile_of_doReceiveFile {signedChar : Bool} {fresh : Nat → UInt8}
    {old : Option (List UInt8)} {buf content : List UInt8} {recvs : List Recv}
    (h : doReceiveFile signedChar fresh old buf recvs = .ok (some content)) :
    ∃ rArgs fileSize d, getArgs buf 512 = .ok rArgs ∧
      atoi (rArgs.argv.drop 2).flatten = .ok fileSize ∧
      receiveFile signedChar fileSize recvs = .ok d := by
  rw [doReceiveFile, printfileFlags, openFile_creat] at h
  obtain ⟨rArgs, hargs, h⟩ := exists_ok_of_bind h
  obtain ⟨fileSize, hsize, h⟩ := exists_ok_of_bind h
  obtain ⟨s, hreceive, h⟩ := exists_ok_of_bind h
  obtain ⟨outputSize, -, h⟩ := exists_ok_of_bind h
  obtain ⟨o, hdecode, -⟩ := exists_ok_of_bind h
  obtain ⟨d, hd⟩ := base64DecodeBlock_of_decodeBlock hdecode .start
  exact ⟨rArgs, fileSize, d, hargs, hsize, (bind_of_ok hreceive).trans hd⟩

end LinuxCodeDemos.NailPrinter

/-
  LinuxCodeDemos.NailPrinter.Base64

  The base64 coroutines of `cencode.c` and `cdecode.c`, and the server's static buffers they write.

  - The `switch` into the `while (1)` loop goes on at the step the state has; one byte of input is
    `encodeByte` or `decodeByte`.
  - `plaintextend` and `code_in+length_in` are compared with `==` only, so a length that is negative
    or too large makes the loop run out of its input.
  - Of a block that is written from its start on, the part that was written is kept (`emit`).
  - `cencode.c` gives the same text for both kinds of `char`.  For `cdecode.c` it matters: where
    `char` is unsigned no `fragment` is negative, and nothing is skipped.
-/

import Mathlib.Data.List.GetD
import LinuxCodeDemos.Lib.Memory

namespace LinuxCodeDemos.NailPrinter

open Lib

/-- Write behind what was written, into a block of `capacity` bytes. -/
def emit (capacity : Nat) (out bytes : List UInt8) : Except Fault (List UInt8) :=
  if out.length + bytes.length ≤ capacity then .ok (out ++ bytes) else .error .write

-- ============================================================================
-- `cencode.c`
-- ============================================================================

/-- `base64_encodestep`. -/
inductive EncodeStep where
  | stepA
  | stepB
  | stepC
  deriving DecidableEq, Repr

/-- `base64_encodestate`. -/
structure EncodeState where
  step : EncodeStep
  result : UInt8
  stepcount : Nat
  deriving DecidableEq, Repr

def charsPerLine : Nat := 72

/-- `'\n'`. -/
def newline : UInt8 := 10

/-- `'='`. -/
def equalsSign : UInt8 := 61

def base64InitEncodestate : EncodeState := { step := .stepA, result := 0, stepcount := 0 }

def encoding : List UInt8 :=
  "ABCDEFGHIJKLMNOPQRSTUVWXYZabcdefghijklmnopqrstuvwxyz0123456789+/".toList.map
    fun c => UInt8.ofNat c.toNat

def base64EncodeValue (value : UInt8) : UInt8 :=
  if value > 63 then equalsSign else encoding.getD value.toNat 0

/-- One byte of plain text: the state behind it and the characters written for it. -/
def encodeByte (s : EncodeState) (fragment : UInt8) : EncodeState × List UInt8 :=
  match s.step with
  | .stepA =>
      ({ s with step := .stepB, result := (fragment &&& 0x03) <<< 4 },
        [base64EncodeValue ((fragment &&& 0xfc) >>> 2)])
  | .stepB =>
      ({ s with step := .stepC, result := (fragment &&& 0x0f) <<< 2 },
        [base64EncodeValue (s.result ||| (fragment &&& 0xf0) >>> 4)])
  | .stepC =>
      let result := fragment &&& 0x3f
      let chars := [base64EncodeValue (s.result ||| (fragment &&& 0xc0) >>> 6),
        base64EncodeValue result]
      if s.stepcount + 1 = charsPerLine / 4 then
        ({ step := .stepA, result, stepcount := 0 }, chars ++ [newline])
      else ({ step := .stepA, result, stepcount := s.stepcount + 1 }, chars)

/-- `base64_encode_block` on what is left of the block `plaintext_in` points to and of
    `length_in`. -/
def base64EncodeBlock (capacity : Nat) :
    List UInt8 → Int → EncodeState → List UInt8 → Except Fault (EncodeState × List UInt8)
  | [], left, s, out => if left = 0 then .ok (s, out) else .error .read
  | fragment :: plain, left, s, out =>
      if left = 0 then .ok (s, out)
      else do
        let out ← emit capacity out (encodeByte s fragment).2
        base64EncodeBlock capacity plain (left - 1) (encodeByte s fragment).1 out

/-- The characters that `base64_encode_blockend` writes. -/
def blockend (s : EncodeState) : List UInt8 :=
  match s.step with
  | .stepB => [base64EncodeValue s.result, equalsSign, equalsSign, newline]
  | .stepC => [base64EncodeValue s.result, equalsSign, newline]
  | .stepA => [newline]

def base64EncodeBlockend (capacity : Nat) (s : EncodeState) (out : List UInt8) :
    Except Fault (List UInt8) :=
  emit capacity out (blockend s)

/-- The state behind some bytes and the characters written for them. -/
def encodeBytes : EncodeState → List UInt8 → EncodeState × List UInt8
  | s, [] => (s, [])
  | s, fragment :: plain =>
      ((encodeBytes (encodeByte s fragment).1 plain).1,
        (encodeByte s fragment).2 ++ (encodeBytes (encodeByte s fragment).1 plain).2)

/-- The text that the encoder makes of a file. -/
def base64Text (file : List UInt8) : List UInt8 :=
  (encodeBytes base64InitEncodestate file).2 ++ blockend (encodeBytes base64InitEncodestate file).1

section Encodes

variable {capacity : Nat} {plain out : List UInt8} {s : EncodeState}

theorem emit_of_le {bytes : List UInt8} (h : out.length + bytes.length ≤ capacity) :
    emit capacity out bytes = .ok (out ++ bytes) := if_pos h

theorem emit_of_lt {bytes : List UInt8} (h : capacity < out.length + bytes.length) :
    emit capacity out bytes = .error .write := if_neg (Nat.not_le.mpr h)

/-- Writing two pieces is writing both at once. -/
theorem emit_append {xs ys : List UInt8} :
    emit capacity (out ++ xs) ys = emit capacity out (xs ++ ys) := by
  simp only [emit, List.length_append, List.append_assoc, Nat.add_assoc]

theorem emit_bind {xs ys : List UInt8} :
    (emit capacity out xs >>= fun out => emit capacity out ys) = emit capacity out (xs ++ ys) := by
  by_cases hle : out.length + xs.length ≤ capacity
  · rw [emit_of_le hle]
    exact emit_append
  · rw [emit_of_lt (Nat.not_le.mp hle), emit_of_lt (by rw [List.length_append]; omega)]
    rfl

/-- The encoder stays inside its output exactly as long as the whole text does. -/
theorem base64EncodeBlock_eq (plain rest : List UInt8) {s : EncodeState} {out : List UInt8}
    (hout : out.length ≤ capacity) :
    base64EncodeBlock capacity (plain ++ rest) plain.length s out
      = (emit capacity out (encodeBytes s plain).2).map fun out => ((encodeBytes s plain).1, out) := by
  induction plain generalizing s out with
  | nil =>
      rw [encodeBytes, emit_of_le hout, List.append_nil, List.nil_append]
      cases rest with
      | nil => rfl
      | cons fragment rest => rfl
  | cons fragment plain ih =>
      rw [List.cons_append, base64EncodeBlock, List.length_cons, if_neg (by omega),
        show ((plain.length + 1 : Nat) : Int) - 1 = plain.length by omega, encodeBytes]
      by_cases hle : out.length + (encodeByte s fragment).2.length ≤ capacity
      · rw [emit_of_le hle, ← emit_append]
        exact ih (by rw [List.length_append]; exact hle)
      · rw [emit_of_lt (Nat.not_le.mp hle), emit_of_lt (by rw [List.length_append]; omega)]
        rfl

/-- An input that ends before the length is reached, or a length that never is. -/
theorem base64EncodeBlock_of_out {left : Int} (h : left < 0 ∨ plain.length < left) :
    ∃ e, base64EncodeBlock capacity plain left s out = .error e := by
  induction plain generalizing left s out with
  | nil =>
      rw [base64EncodeBlock, if_neg (by rw [List.length_nil] at h; omega)]
      exact ⟨_, rfl⟩
  | cons fragment plain ih =>
      rw [List.length_cons] at h
      rw [base64EncodeBlock, if_neg (by omega)]
      cases emit capacity out (encodeByte s fragment).2 with
      | error e => exact ⟨e, rfl⟩
      | ok out' => exact ih (by omega)

end Encodes

-- ============================================================================
-- The length of the text
-- ============================================================================

/-- The step after `n` bytes. -/
def stepAfter (n : Nat) : EncodeStep :=
  if n % 3 = 0 then .stepA else if n % 3 = 1 then .stepB else .stepC

/-- The number of characters after `n` bytes: four for three bytes, a newline behind 72. -/
def charsAfter (n : Nat) : Nat := 4 * (n / 3) + n / 3 / 18 + n % 3

/-- The encoder has been through `n` bytes. -/
structure After (n : Nat) (s : EncodeState) : Prop where
  step : s.step = stepAfter n
  stepcount : s.stepcount = n / 3 % 18

theorem after_init : After 0 base64InitEncodestate := ⟨rfl, rfl⟩

theorem After.encodeByte {n : Nat} {s : EncodeState} (h : After n s) (fragment : UInt8) :
    After (n + 1) (encodeByte s fragment).1 ∧
      charsAfter n + (encodeByte s fragment).2.length = charsAfter (n + 1) := by
  have hcount := h.stepcount
  have hstep := h.step
  simp only [NailPrinter.encodeByte, charsAfter]
  obtain hmod | hmod | hmod : n % 3 = 0 ∨ n % 3 = 1 ∨ n % 3 = 2 := by omega
  · rw [stepAfter, if_pos hmod] at hstep
    rw [hstep]
    refine ⟨⟨?_, ?_⟩, ?_⟩
    · show EncodeStep.stepB = _
      rw [stepAfter, if_neg (by omega), if_pos (by omega)]
    · show s.stepcount = _
      omega
    · show _ + 1 = _
      omega
  · rw [stepAfter, if_neg (by omega), if_pos hmod] at hstep
    rw [hstep]
    refine ⟨⟨?_, ?_⟩, ?_⟩
    · show EncodeStep.stepC = _
      rw [stepAfter, if_neg (by omega), if_neg (by omega)]
    · show s.stepcount = _
      omega
    · show _ + 1 = _
      omega
  · rw [stepAfter, if_neg (by omega), if_neg (by omega)] at hstep
    have hnext : EncodeStep.stepA = stepAfter (n + 1) := by rw [stepAfter, if_pos (by omega)]
    rw [hstep]
    dsimp only
    rw [show charsPerLine / 4 = 18 from rfl]
    -- the eighteenth group of a line brings the newline
    by_cases hline : s.stepcount + 1 = 18
    · rw [if_pos hline]
      refine ⟨⟨hnext, ?_⟩, ?_⟩
      · show 0 = _
        omega
      · show _ + 3 = _
        omega
    · rw [if_neg hline]
      refine ⟨⟨hnext, ?_⟩, ?_⟩
      · show s.stepcount + 1 = _
        omega
      · show _ + 2 = _
        omega

theorem After.encodeBytes {n : Nat} {s : EncodeState} (h : After n s) (plain : List UInt8) :
    After (n + plain.length) (encodeBytes s plain).1 ∧
      charsAfter n + (encodeBytes s plain).2.length = charsAfter (n + plain.length) := by
  induction plain generalizing n s with
  | nil => exact ⟨h, rfl⟩
  | cons fragment plain ih =>
      obtain ⟨hnext, hlen⟩ := h.encodeByte fragment
      obtain ⟨hlast, hrest⟩ := ih hnext
      rw [List.length_cons, Nat.add_comm plain.length 1, ← Nat.add_assoc]
      refine ⟨hlast, ?_⟩
      rw [NailPrinter.encodeBytes, List.length_append, ← Nat.add_assoc, hlen, hrest]

theorem After.length_blockend {n : Nat} {s : EncodeState} (h : After n s) :
    charsAfter n + (blockend s).length = 4 * ((n + 2) / 3) + n / 54 + 1 := by
  have hstep := h.step
  rw [charsAfter, blockend]
  obtain hmod | hmod | hmod : n % 3 = 0 ∨ n % 3 = 1 ∨ n % 3 = 2 := by omega
  · rw [stepAfter, if_pos hmod] at hstep
    rw [hstep]
    show _ + 1 = _
    omega
  · rw [stepAfter, if_neg (by omega), if_pos hmod] at hstep
    rw [hstep]
    show _ + 4 = _
    omega
  · rw [stepAfter, if_neg (by omega), if_neg (by omega)] at hstep
    rw [hstep]
    show _ + 3 = _
    omega

/-- The length of the text of a file. -/
theorem length_base64Text (file : List UInt8) :
    (base64Text file).length = 4 * ((file.length + 2) / 3) + file.length / 54 + 1 := by
  obtain ⟨hlast, hlen⟩ := after_init.encodeBytes file
  rw [Nat.zero_add] at hlast hlen
  rw [base64Text, List.length_append, ← hlast.length_blockend, ← hlen]
  rw [show charsAfter 0 = 0 from rfl, Nat.zero_add]

-- ============================================================================
-- `cdecode.c`
-- ============================================================================

/-- `base64_decodestep`. -/
inductive DecodeStep where
  | stepA
  | stepB
  | stepC
  | stepD
  deriving DecidableEq, Repr

/-- The table, with `-1` and `-2` as the bytes they are. -/
def decoding : List UInt8 :=
  [62, 255, 255, 255, 63, 52, 53, 54, 55, 56, 57, 58, 59, 60, 61, 255, 255, 255, 254, 255, 255, 255,
    0, 1, 2, 3, 4, 5, 6, 7, 8, 9, 10, 11, 12, 13, 14, 15, 16, 17, 18, 19, 20, 21, 22, 23, 24, 25,
    255, 255, 255, 255, 255, 255, 26, 27, 28, 29, 30, 31, 32, 33, 34, 35, 36, 37, 38, 39, 40, 41, 42,
    43, 44, 45, 46, 47, 48, 49, 50, 51]

/-- `base64_decode_value`, stored in a `char`. -/
def base64DecodeValue (value : UInt8) : UInt8 := decoding.getD (value - 43).toNat 255

/-- What the decoder has written: the bytes that are complete and the one at `plainchar`. -/
structure Decoded where
  step : DecodeStep
  plain : List UInt8
  plainchar : UInt8
  deriving DecidableEq, Repr

/-- `base64_init_decodestate`, and the store in front of the `switch`. -/
def Decoded.start : Decoded := { step := .stepA, plain := [], plainchar := 0 }

/-- One character of code. -/
def decodeByte (signedChar : Bool) (s : Decoded) (code : UInt8) : Decoded :=
  let fragment := base64DecodeValue code
  if signedChar ∧ fragment ≥ 128 then s
  else
    match s.step with
    | .stepA => { s with step := .stepB, plainchar := (fragment &&& 0x3f) <<< 2 }
    | .stepB =>
        { step := .stepC, plain := s.plain ++ [s.plainchar ||| (fragment &&& 0x30) >>> 4]
          plainchar := (fragment &&& 0x0f) <<< 4 }
    | .stepC =>
        { step := .stepD, plain := s.plain ++ [s.plainchar ||| (fragment &&& 0x3c) >>> 2]
          plainchar := (fragment &&& 0x03) <<< 6 }
    | .stepD => { s with step := .stepA, plain := s.plain ++ [s.plainchar ||| (fragment &&& 0x3f)] }

/-- `base64_decode_block` on what is left of the block `code_in` points to and of `length_in`: the
    side that reads, where a byte that was never stored cannot be read.  `decodeBlock` has the
    block that is written. -/
def base64DecodeBlock (signedChar : Bool) :
    List (Option UInt8) → Int → Decoded → Except Fault Decoded
  | [], left, s => if left = 0 then .ok s else .error .read
  | code :: rest, left, s =>
      if left = 0 then .ok s
      else
        match code with
        | none => .error .read
        | some code => base64DecodeBlock signedChar rest (left - 1) (decodeByte signedChar s code)

end LinuxCodeDemos.NailPrinter
